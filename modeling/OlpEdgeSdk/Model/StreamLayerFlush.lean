import OlpEdgeSdk.Model.StreamLayerQueue

/-!
# Flushing the queue

The thread of `StreamLayerClientImpl::Flush` pops a request, publishes it and waits for the
response; then it looks whether it was cancelled, and if so queues the request again and ends.
The token it returns can be cancelled between any two of these. A publish that is under way
ends in any way; it ends cancelled only after the token was cancelled.

The requests in the queue at the start are numbered from zero. `tags` says which of them is
where in the queue, and the responses are kept with the number of their request.

SOURCE: olp-cpp-sdk-dataservice-write/src/StreamLayerClientImpl.cpp
-/

set_option autoImplicit false

namespace OlpEdgeSdk.Model

open OlpEdgeSdk.Base

namespace StreamLayerClientImpl

/-- How a publish ends. -/
inductive PublishOutcome where
  | succeeded
  | failed
  | cancelled
deriving DecidableEq, Repr

/-- Where the thread is: at the head of its loop, before `ExecuteOrCancelled`, waiting at the
barrier, behind it with what became of the publish, or behind the callback. -/
inductive FlushPhase where
  | looping
  | popped (tag : ℕ) (request : PublishDataRequest)
  | publishing (tag : ℕ) (request : PublishDataRequest)
  | answered (tag : ℕ) (request : PublishDataRequest) (outcome : Option PublishOutcome)
  | finished
deriving DecidableEq

structure Flush where
  client : Client
  eventsPerSingleFlush : Option ℤ
  isCancelled : Bool
  counter : ℤ
  phase : FlushPhase
  response : List (ℕ × PublishOutcome)
  tags : List ℕ

/-- The thread of a flush of a queue of `n` requests. -/
def Flush.start (client : Client) (eventsPerSingleFlush : Option ℤ) (n : ℕ) : Flush :=
  ⟨client, eventsPerSingleFlush, false, 0, .looping, [], List.range n⟩

/-- A step of the thread, the end of the publish it waits for, or the cancellation of the token.
Behind each step stands how the cache answers and which uuid is generated. -/
inductive FlushEvent where
  | turn (sizeSource listSource entrySource : Source)
  | execute
  | respond (outcome : PublishOutcome)
  | check (publishDataKey : Uuid) (sizeSource listSource : Source)
  | cancel

/-- SOURCE: StreamLayerClientImpl.cpp:361-417. A limit that is not positive ends the thread
before its loop; the loop would do the same at its first turn. -/
def flushStep (codec : Codec) (f : Flush) : FlushEvent → Option Flush
  | .turn sizeSource listSource entrySource =>
    match f.phase with
    | .looping => do
      let size ← queueSize f.client sizeSource
      if (∀ maximum ∈ f.eventsPerSingleFlush, f.counter < maximum) ∧ 0 < size then
        let (client, publishDataRequest) ← popFromQueue codec f.client listSource (some entrySource)
        let phase := match publishDataRequest with
          | none => .looping
          | some request => .popped (f.tags.headD 0) request
        return { f with client := client, phase := phase, tags := f.tags.tail }
      else return { f with phase := .finished }
    | _ => none
  | .execute =>
    match f.phase with
    | .popped tag request =>
      if f.isCancelled then some { f with phase := .answered tag request none }
      else some { f with phase := .publishing tag request }
    | _ => none
  | .respond outcome =>
    match f.phase with
    | .publishing tag request =>
      if outcome = .cancelled ∧ f.isCancelled = false then none
      else some { f with
        phase := .answered tag request (some outcome),
        response := f.response ++ [(tag, outcome)] }
    | _ => none
  | .check publishDataKey sizeSource listSource =>
    match f.phase with
    | .answered tag request _ =>
      if f.isCancelled then do
        let (client, error) ← queue codec f.client request publishDataKey sizeSource listSource
        return { f with
          client := client,
          phase := .finished,
          tags := if error.isNone then f.tags ++ [tag] else f.tags }
      else some { f with phase := .looping, counter := f.counter + 1 }
    | _ => none
  | .cancel => some { f with isCancelled := true }

end StreamLayerClientImpl

end OlpEdgeSdk.Model

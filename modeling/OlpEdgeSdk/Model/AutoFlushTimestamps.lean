import OlpEdgeSdk.Model.StreamLayerQueue

/-!
# The timestamps of the queued requests

An enabled `AutoFlushController` keeps a time for each queued request, oldest first, in
`partition_timestamp_queue_`, if old events are to be flushed after an interval. `Queue`
announces a request before it appends it, the loop of `Flush` announces one after it has
popped it. Beside these fields, `pushedFor` is what they are meant to say: the times that were
pushed for the requests that are in the queue.

SOURCE: AutoFlushController.cpp, PartitionTimestampQueue.cpp, StreamLayerClientImpl.cpp
-/

set_option autoImplicit false

namespace OlpEdgeSdk.Model

open OlpEdgeSdk.Base StreamLayerClientImpl

namespace AutoFlushController

/-- The client and its enabled controller. -/
structure Tracked where
  client : Client
  forceFlushInterval : ℤ
  partitionTimestampQueue : List ℕ
  pushedFor : List ℕ

/-- `PushPartitionTimestamps`.
SOURCE: PartitionTimestampQueue.cpp:35-37 -/
def pushPartitionTimestamps (queue : List ℕ) (size now : ℕ) : List ℕ :=
  queue ++ List.replicate size now

/-- `HandleNotifyFlushEvent`; `pop` of an empty queue does nothing.
SOURCE: AutoFlushController.cpp:167-171 -/
def handleNotifyFlushEvent (t : Tracked) : Tracked :=
  if 0 < t.forceFlushInterval then
    { t with partitionTimestampQueue := t.partitionTimestampQueue.tail }
  else t

/-- `HandleNotifyQueueEventStart`.
SOURCE: AutoFlushController.cpp:173-177 -/
def handleNotifyQueueEventStart (t : Tracked) (now : ℕ) : Tracked :=
  if 0 < t.forceFlushInterval then
    { t with
      partitionTimestampQueue := pushPartitionTimestamps t.partitionTimestampQueue 1 now }
  else t

/-- `InitialiseAutoFlushOldPartitionInterval` of a new controller: one time for each request
that is in the queue already.
SOURCE: AutoFlushController.cpp:145-153 -/
def enable (client : Client) (forceFlushInterval : ℤ) (now : ℕ) (source : Source) :
    Option Tracked := do
  let size ← queueSize client source
  let queue := if 0 < forceFlushInterval then pushPartitionTimestamps [] size now else []
  return ⟨client, forceFlushInterval, queue, List.replicate size now⟩

/-- What can happen to the queue: a whole `Queue` call, a turn of the loop of `Flush` up to the
publish, and the loss of an entry of the cache. -/
inductive Event where
  | queue (request : PublishDataRequest) (publishDataKey : Uuid) (now : ℕ)
      (sizeSource listSource : Source)
  | flush (sizeSource listSource : Source) (entrySource : Option Source)
  | lose (publishDataKey : Uuid)

/-- SOURCE: StreamLayerClientImpl.cpp:279-307, 377-386 -/
def step (codec : Codec) (t : Tracked) : Event → Option Tracked
  | .queue request publishDataKey now sizeSource listSource => do
    match ← queueRefusal t.client request sizeSource with
    | some _ => return t
    | none =>
      let t := handleNotifyQueueEventStart t now
      let client ← append codec t.client request publishDataKey listSource
      return { t with client := client, pushedFor := t.pushedFor ++ [now] }
  | .flush sizeSource listSource entrySource => do
    let size ← queueSize t.client sizeSource
    if 0 < size then
      let (client, publishDataRequest) ← popFromQueue codec t.client listSource entrySource
      let t := { t with client := client, pushedFor := t.pushedFor.tail }
      -- the loop goes on with the next turn, past the event, where nothing could be read
      match publishDataRequest with
      | none => return t
      | some _ => return handleNotifyFlushEvent t
    else return t
  | .lose publishDataKey => do
    let cache ← t.client.cache
    return { t with
      client := { t.client with cache := some (cache.erase publishDataKey.text) } }

end AutoFlushController

end OlpEdgeSdk.Model

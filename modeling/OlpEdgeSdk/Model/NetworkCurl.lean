import Mathlib.Data.List.FinRange
import OlpEdgeSdk.Base.Runs
import OlpEdgeSdk.Model.NetworkCurlHandle

/-!
# The slots of `NetworkCurl` and its worker

Callers take a slot of `handles_`, set it up and queue an event; the worker hands the handles of
the slots to curl, takes what curl has finished, and completes the requests. A run is a list of
events: steps of calls of `Send`, `Cancel` and `Deinitialize`, and steps of the worker. The
mutex is modelled: what is done under it is one step, and the worker holds it while it takes
events or messages, except inside `CompleteMessage`. A read of the state is one step with what
follows it up to where the threads can meet.

Curl is a set of added handles. It gives at most one message for each addition, and none after
the removal; it may reject an addition or an option, and always rejects a handle that it has.
A message other than `CURLMSG_DONE` and a removal that fails are left out. So is a second
`Initialize` that has read the state before the first one is done: it assigns to a thread that
can be joined, which ends the program. A request always comes with a callback, told by the
number of its `Send`; a callback may call the network again, by events of their own.

`NetworkProtocolCurl` works in the same way. There the id of a request is given and not drawn
from a counter, one more option (`CURLOPT_INTERFACE`) can make `Send` fail, and the response has
more data. The easy handle of a slot is told by the number of the slot.

`history` records what has been done, the latest first, and the events, additions and messages
tell whose request they were made for. The code has none of that, and nothing depends on it.

SOURCE: olp-cpp-sdk-core/src/http/curl/NetworkCurl.cpp
SOURCE: olp-cpp-sdk-core/src/http/curl/NetworkCurl.h
SOURCE: olp-cpp-sdk-core/src/network/curl/NetworkProtocolCurl.cpp
-/

set_option autoImplicit false

namespace OlpEdgeSdk.Model.NetworkCurl

open OlpEdgeSdk.Base

/-! ## Requests, events, curl -/

/-- SOURCE: NetworkCurl.h:151 -/
def kStaticHandleCount : ℕ := 8

/-- SOURCE: NetworkCurl.h:154 -/
def kTotalHandleCount : ℕ := 32

/-- The number of a slot of `handles_`. -/
abbrev Slot : Type := Fin kTotalHandleCount

/-- SOURCE: NetworkCurl.h:309-313 -/
inductive WorkerState where
  | STOPPED
  | STARTED
  | STOPPING
deriving DecidableEq, Repr

/-- What a call of `Send` puts into its slot. -/
structure SendRequest where
  id : ℕ
  headerCallback : Bool
  dataCallback : Bool
  payload : Option PayloadStream
  maxRetries : ℕ
  ignoreOffset : Bool
  skipContent : Bool
deriving DecidableEq

/-- Why `Send` has failed: the worker is not started, there is no slot, curl does not take an
option, or the worker is not started any more. -/
inductive SendError where
  | notStarted
  | noHandle
  | optionFailed
  | stopped
deriving DecidableEq, Repr

/-- Where a call of `Send` is: before the checks of `SendImplementation` and of `GetHandle`,
before it takes a slot, with a slot before and after it has set the fields, before it queues the
event, or at its end. -/
inductive SendState where
  | notCalled
  | called (r : SendRequest)
  | gettingHandle (r : SendRequest)
  | locking (r : SendRequest)
  | configuring (slot : Slot) (r : SendRequest)
  | settingOptions (slot : Slot)
  | addingEvent (slot : Slot)
  | accepted
  | failed (error : SendError)
deriving DecidableEq

/-- SOURCE: NetworkCurl.h:133-136 -/
inductive EventType where
  | SEND_EVENT
  | CANCEL_EVENT
deriving DecidableEq, Repr

/-- An event for a slot. `request` is what the slot held when the event was queued; for the
event of a `Send`, the request of that `Send`.
SOURCE: NetworkCurl.h:129-145 -/
structure EventInfo where
  type : EventType
  handle : Slot
  request : Option ℕ
deriving DecidableEq, Repr

/-- A handle given to curl, and the request that was in its slot. -/
structure Addition where
  slot : Slot
  request : Option ℕ
deriving DecidableEq, Repr

/-- How a transfer has ended. -/
structure Outcome where
  result : CurlCode
  httpStatus : ℕ
  tookLong : Bool
deriving DecidableEq, Repr

/-- A `CURLMSG_DONE`. -/
structure Message where
  addition : Addition
  outcome : Outcome
deriving DecidableEq, Repr

/-- The multi handle `curl_`. -/
structure Multi where
  added : List Addition
  messages : List Message
deriving DecidableEq

namespace Multi

def empty : Multi := ⟨[], []⟩

def find (multi : Multi) (slot : Slot) : Option Addition :=
  multi.added.find? fun addition => addition.slot = slot

def add (multi : Multi) (addition : Addition) : Multi :=
  { multi with added := multi.added ++ [addition] }

/-- The handles that go out of the multi handle take their messages with them. -/
def removeAll (multi : Multi) (slots : Slot → Bool) : Multi where
  added := multi.added.filter fun addition => !slots addition.slot
  messages := multi.messages.filter fun message => !slots message.addition.slot

def remove (multi : Multi) (slot : Slot) : Multi := multi.removeAll fun other => other = slot

/-- Whether curl can finish the transfer of an addition: it has it and has not done so yet. -/
def canFinish (multi : Multi) (addition : Addition) : Bool :=
  addition ∈ multi.added && multi.messages.all fun message => message.addition.slot ≠ addition.slot

def finish (multi : Multi) (message : Message) : Multi :=
  { multi with messages := multi.messages ++ [message] }

end Multi

/-- What has made the worker remove or complete a request: an event, the end of a transfer, an
addition that curl has rejected, a handle that seemed lost (with what curl had of it), or the
end of the worker. -/
inductive Cause where
  | cancelEvent (request : Option ℕ)
  | transfer (message : Message)
  | addition (request : Option ℕ)
  | lost (request : Option ℕ)
  | offline
deriving DecidableEq, Repr

/-- What has been done. `holder` is what the slot held then. -/
inductive Effect where
  | took (request : ℕ)
  | queued (request : Option ℕ)
  | cancelled (request : Option ℕ)
  | added (holder event : Option ℕ) (success : Bool)
  | removed (holder : Option ℕ) (cause : Cause)
  | answered (request : ℕ) (cause : Cause) (id : ℕ) (status : ℤ)
deriving DecidableEq, Repr

/-! ## The worker -/

/-- Where `Run` is: at its end, at its start, at the head of the loop, taking events (`msgs` are
the handles that curl has rejected), behind that, completing what was rejected, in
`curl_multi_perform`, taking messages, behind that, with handles that seem lost, completing
those, before the handles are cleaned up, before `Teardown`, or telling callbacks that the
network is offline. -/
inductive Phase where
  | ended
  | starting
  | looping
  | events (msgs : List Addition)
  | added (msgs : List Addition)
  | failing (msgs : List Addition)
  | performing
  | messages (completed : Bool)
  | selecting (completed : Bool)
  | found (lostHandles : List Slot)
  | releasing (lostHandles : List Slot)
  | cleaning
  | leaving
  | offline (completedMessages : List (ℕ × ℕ))
deriving DecidableEq

/-- Where `CompleteMessage` is: called, behind its first section under the mutex, before the
mutex for another attempt or for the release of the slot, before the callback, or before its
return. -/
inductive Completing where
  | called (slot : Slot) (outcome : Outcome) (cause : Cause)
  | found (slot : Slot) (callback : ℕ) (outcome : Outcome) (cause : Cause)
  | retrying (slot : Slot)
  | releasing (slot : Slot) (callback id : ℕ) (status : ℤ) (cause : Cause)
  | answering (callback id : ℕ) (status : ℤ) (cause : Cause)
  | returned
deriving DecidableEq

/-- The members of a `NetworkCurl`, and where its threads are. `cancels` and `stops` are the
calls of `Cancel` and `Deinitialize` that have found the worker started. -/
structure CurlState where
  state : WorkerState
  handles : Slot → RequestHandle
  events : List EventInfo
  multi : Multi
  phase : Phase
  completing : Option Completing
  sends : ℕ → SendState
  cancels : List ℕ
  stops : ℕ
  history : List Effect

/-- `ReleaseHandleUnlocked`.
SOURCE: NetworkCurl.cpp:672-683 -/
def releaseHandleUnlocked (handle : RequestHandle) : RequestHandle :=
  { handle with
    inUse := false, callback := none, headerCallback := false, dataCallback := false
    payload := none }

namespace CurlState

/-- A `NetworkCurl` as it is built. -/
def new : CurlState where
  state := .STOPPED
  handles _ := RequestHandle.new
  events := []
  multi := Multi.empty
  phase := .ended
  completing := none
  sends _ := .notCalled
  cancels := []
  stops := 0
  history := []

def isStarted (s : CurlState) : Bool := s.state = .STARTED

def setHandle (s : CurlState) (slot : Slot) (handle : RequestHandle) : CurlState :=
  { s with handles := Function.update s.handles slot handle }

def setSend (s : CurlState) (n : ℕ) (send : SendState) : CurlState :=
  { s with sends := Function.update s.sends n send }

/-- `AddEvent`, without the signal.
SOURCE: NetworkCurl.cpp:609-620 -/
def addEvent (s : CurlState) (type : EventType) (slot : Slot) (request : Option ℕ) : CurlState :=
  { s with events := s.events ++ [⟨type, slot, request⟩] }

def record (s : CurlState) (effect : Effect) : CurlState :=
  { s with history := effect :: s.history }

/-- The worker holds the mutex. -/
def workerLocks (s : CurlState) : Bool :=
  match s.phase, s.completing with
  | .events _, none => true
  | .messages _, none => true
  | _, _ => false

/-! ## Callers -/

/-- `Initialize`, up to the start of the worker.
SOURCE: NetworkCurl.cpp:207-278 -/
def initializeWorker (s : CurlState) : Option CurlState :=
  if s.state = .STOPPED ∧ s.phase = .ended then
    some { s with
      handles := fun slot =>
        { s.handles slot with handle := slot.val < kStaticHandleCount, inUse := false }
      multi := Multi.empty
      phase := .starting }
  else none

/-- `Deinitialize` reads the state.
SOURCE: NetworkCurl.cpp:280-285 -/
def deinitialize (s : CurlState) : CurlState :=
  if s.isStarted then { s with stops := s.stops + 1 } else s

/-- SOURCE: NetworkCurl.cpp:286-290 -/
def stop (s : CurlState) : Option CurlState :=
  if s.stops = 0 ∨ s.workerLocks then none
  else some { s with state := .STOPPING, stops := s.stops - 1 }

/-- `Send` is called.
SOURCE: NetworkCurl.cpp:381-416 -/
def send (s : CurlState) (n : ℕ) (r : SendRequest) : Option CurlState :=
  match s.sends n with
  | .notCalled => some (s.setSend n (.called r))
  | _ => none

/-- SOURCE: NetworkCurl.cpp:425-427 -/
def sendImplementation (s : CurlState) (n : ℕ) : Option CurlState :=
  match s.sends n with
  | .called r =>
    some (s.setSend n (if s.isStarted then .gettingHandle r else .failed .notStarted))
  | _ => none

/-- SOURCE: NetworkCurl.cpp:626-628 -/
def checkHandle (s : CurlState) (n : ℕ) : Option CurlState :=
  match s.sends n with
  | .gettingHandle r => some (s.setSend n (if s.isStarted then .locking r else .failed .noHandle))
  | _ => none

/-- The slot that `GetHandle` takes. -/
def freeSlot (s : CurlState) : Option Slot :=
  (List.finRange kTotalHandleCount).find? fun slot => !(s.handles slot).inUse

/-- The rest of `GetHandle`; `created` says whether `curl_easy_init` succeeds.
SOURCE: NetworkCurl.cpp:629-664 -/
def getHandle (s : CurlState) (n : ℕ) (created : Bool) : Option CurlState :=
  if s.workerLocks then none
  else
    match s.sends n with
    | .locking r =>
      match s.freeSlot with
      | none => some (s.setSend n (.failed .noHandle))
      | some slot =>
        if (s.handles slot).handle || created then
          let handle :=
            take (s.handles slot) r.id (some n) r.headerCallback r.dataCallback r.payload
          some (((s.setHandle slot handle).setSend n (.configuring slot r)).record (.took n))
        else some (s.setSend n (.failed .noHandle))
    | _ => none

/-- SOURCE: NetworkCurl.cpp:437-441 -/
def configureHandle (s : CurlState) (n : ℕ) : Option CurlState :=
  match s.sends n with
  | .configuring slot r =>
    let handle := configure (s.handles slot) r.maxRetries r.ignoreOffset r.skipContent
    some ((s.setHandle slot handle).setSend n (.settingOptions slot))
  | _ => none

/-- Curl does not take an option that is checked.
SOURCE: NetworkCurl.cpp:530-534, NetworkProtocolCurl.cpp:466-470, 575-579 -/
def optionFails (s : CurlState) (n : ℕ) : Option CurlState :=
  match s.sends n with
  | .settingOptions _ => some (s.setSend n (.failed .optionFailed))
  | _ => none

/-- SOURCE: NetworkCurl.cpp:581-583 -/
def checkAgain (s : CurlState) (n : ℕ) : Option CurlState :=
  match s.sends n with
  | .settingOptions slot =>
    some (s.setSend n (if s.isStarted then .addingEvent slot else .failed .stopped))
  | _ => none

/-- SOURCE: NetworkCurl.cpp:584-588 -/
def addSendEvent (s : CurlState) (n : ℕ) : Option CurlState :=
  if s.workerLocks then none
  else
    match s.sends n with
    | .addingEvent slot =>
      some (((s.addEvent .SEND_EVENT slot (some n)).setSend n .accepted).record (.queued (some n)))
    | _ => none

/-- `Cancel` reads the state.
SOURCE: NetworkCurl.cpp:591-596 -/
def cancel (s : CurlState) (id : ℕ) : CurlState :=
  if s.isStarted then { s with cancels := s.cancels ++ [id] } else s

/-- The slot that `Cancel` finds. -/
def slotOfId (s : CurlState) (id : ℕ) : Option Slot :=
  (List.finRange kTotalHandleCount).find? fun slot =>
    (s.handles slot).inUse && (s.handles slot).id = id

/-- The rest of `Cancel`.
SOURCE: NetworkCurl.cpp:597-607 -/
def markCancelled (s : CurlState) (id : ℕ) : Option CurlState :=
  if s.workerLocks ∨ id ∉ s.cancels then none
  else
    let s := { s with cancels := s.cancels.erase id }
    match s.slotOfId id with
    | some slot =>
      let handle := s.handles slot
      some (((s.setHandle slot { handle with cancelled := true }).addEvent .CANCEL_EVENT slot
        handle.callback).record (.cancelled handle.callback))
    | none => some s

/-! ## Inside `CompleteMessage` -/

/-- `CompleteMessage` goes on.
SOURCE: NetworkCurl.cpp:805-909 -/
def completeMessage (s : CurlState) : Option CurlState :=
  match s.completing with
  | none => none
  | some (.called slot outcome cause) =>
    let handle := s.handles slot
    if handle.inUse && handle.handle then
      match handle.callback with
      | none =>
        some { s.setHandle slot (releaseHandleUnlocked handle) with completing := some .returned }
      | some callback =>
        if handle.cancelled then
          some { s.setHandle slot (releaseHandleUnlocked handle) with
            completing :=
              some (.answering callback handle.id ErrorCode.CANCELLED_ERROR.value cause) }
        else some { s with completing := some (.found slot callback outcome cause) }
    else some { s with completing := some .returned }
  | some (.found slot callback outcome cause) =>
    let handle := s.handles slot
    let status := attemptStatus handle outcome.result outcome.httpStatus outcome.tookLong
    let (handle, again) := retry handle status
    if again then some { s.setHandle slot handle with completing := some (.retrying slot) }
    else
      some { s.setHandle slot handle with
        completing := some (.releasing slot callback handle.id status cause) }
  | some (.retrying slot) =>
    let request := (s.handles slot).callback
    some { (s.addEvent .SEND_EVENT slot request).record (.queued request) with
      completing := some .returned }
  | some (.releasing slot callback id status cause) =>
    some { s.setHandle slot (releaseHandleUnlocked (s.handles slot)) with
      completing := some (.answering callback id status cause) }
  | some (.answering callback id status cause) =>
    some { s.record (.answered callback cause id status) with completing := some .returned }
  | some .returned => some { s with completing := none }

/-! ## The loop of the worker -/

/-- SOURCE: NetworkCurl.cpp:923-927 -/
def runStarts (s : CurlState) : Option CurlState :=
  match s.phase with
  | .starting => some { s with state := .STARTED, phase := .looping }
  | _ => none

/-- SOURCE: NetworkCurl.cpp:929-932 -/
def iterate (s : CurlState) : Option CurlState :=
  match s.phase with
  | .looping => some { s with phase := if s.isStarted then .events [] else .leaving }
  | _ => none

/-- A `SEND_EVENT` for a slot that is in use; `success` says whether curl takes the handle.
SOURCE: NetworkCurl.cpp:937-949 -/
def addHandle (s : CurlState) (event : EventInfo) (msgs : List Addition) (success : Bool) :
    CurlState :=
  let addition : Addition := ⟨event.handle, (s.handles event.handle).callback⟩
  if success && (s.multi.find event.handle).isNone then
    { s.record (.added addition.request event.request true) with multi := s.multi.add addition }
  else
    { s.record (.added addition.request event.request false) with
      phase := .events (msgs ++ [addition]) }

/-- A `CANCEL_EVENT` for a slot that is in use, up to the call of `CompleteMessage`.
SOURCE: NetworkCurl.cpp:950-957 -/
def cancelHandle (s : CurlState) (event : EventInfo) : CurlState :=
  let cause := Cause.cancelEvent event.request
  { s.record (.removed (s.handles event.handle).callback cause) with
    multi := s.multi.remove event.handle
    completing := some (.called event.handle ⟨.OPERATION_TIMEDOUT, 0, false⟩ cause) }

/-- The next event.
SOURCE: NetworkCurl.cpp:933-960 -/
def handleEvent (s : CurlState) (success : Bool) : Option CurlState :=
  match s.phase with
  | .events msgs =>
    match s.events with
    | event :: events =>
      if s.isStarted then
        let s := { s with events := events }
        if (s.handles event.handle).inUse then
          match event.type with
          | .SEND_EVENT => some (s.addHandle event msgs success)
          | .CANCEL_EVENT => some (s.cancelHandle event)
        else some s
      else some { s with phase := .added msgs }
    | [] => some { s with phase := .added msgs }
  | _ => none

/-- SOURCE: NetworkCurl.cpp:962-964 -/
def checkAdded (s : CurlState) : Option CurlState :=
  match s.phase with
  | .added msgs => some { s with phase := if s.isStarted then .failing msgs else .looping }
  | _ => none

/-- SOURCE: NetworkCurl.cpp:965-969 -/
def failNext (s : CurlState) : Option CurlState :=
  match s.phase with
  | .failing (msg :: msgs) =>
    some { s with
      phase := .failing msgs
      completing := some (.called msg.slot ⟨.COULDNT_CONNECT, 0, false⟩ (.addition msg.request)) }
  | .failing [] => some { s with phase := .performing }
  | _ => none

/-- Inside `curl_multi_perform` curl hands what it receives to the callbacks, and finishes a
transfer. A header is ignored as it is in `HeaderFunction`.
SOURCE: NetworkCurl.cpp:685-803, 971-977 -/
def transfer (s : CurlState) (addition : Addition) (a : Attempt) : Option CurlState :=
  match s.phase with
  | .performing =>
    if s.multi.canFinish addition then
      let handle := s.handles addition.slot
      let handle := if s.isStarted && !handle.cancelled then receiveHeader a handle else handle
      let handle := a.chunks.foldl (rxFunction s.isStarted a.status) handle
      some { s.setHandle addition.slot handle with
        multi := s.multi.finish ⟨addition, a.result, a.status, a.tookLong⟩ }
    else none
  | _ => none

/-- SOURCE: NetworkCurl.cpp:974-984 -/
def performed (s : CurlState) : Option CurlState :=
  match s.phase with
  | .performing => some { s with phase := .messages false }
  | _ => none

/-- The next message.
SOURCE: NetworkCurl.cpp:985-1022 -/
def readMessage (s : CurlState) : Option CurlState :=
  match s.phase with
  | .messages completed =>
    if s.isStarted then
      match s.multi.messages with
      | message :: _ =>
        let addition := message.addition
        let cause := Cause.transfer message
        some { s.record (.removed (s.handles addition.slot).callback cause) with
          multi := s.multi.remove addition.slot
          phase := .messages true
          completing := some (.called addition.slot message.outcome cause) }
      | [] => some { s with phase := .selecting completed }
    else some { s with phase := .selecting completed }
  | _ => none

/-- The next iteration, at once if messages were completed and in any case if `again`.
SOURCE: NetworkCurl.cpp:1024-1066 -/
def restart (s : CurlState) (again : Bool) : Option CurlState :=
  match s.phase with
  | .selecting completed =>
    if !s.isStarted || completed || again then some { s with phase := .looping } else none
  | _ => none

/-- The handles in use that seem lost, as `lost` has it.
SOURCE: NetworkCurl.cpp:1071-1093 -/
def findLost (s : CurlState) (lost : Slot → Bool) : Option CurlState :=
  match s.phase with
  | .selecting false =>
    if s.isStarted then
      some { s with
        phase := .found ((List.finRange kTotalHandleCount).filter fun slot =>
          (s.handles slot).inUse && lost slot) }
    else none
  | _ => none

/-- No handle is looked for.
SOURCE: NetworkCurl.cpp:1071 -/
def skipLost (s : CurlState) : Option CurlState :=
  match s.phase with
  | .selecting false => if s.isStarted then some { s with phase := .cleaning } else none
  | _ => none

/-- SOURCE: NetworkCurl.cpp:1094, 1131-1133 -/
def checkLost (s : CurlState) : Option CurlState :=
  match s.phase with
  | .found lostHandles =>
    some { s with phase := if s.isStarted then .releasing lostHandles else .looping }
  | _ => none

/-- SOURCE: NetworkCurl.cpp:1094-1133 -/
def releaseLost (s : CurlState) : Option CurlState :=
  match s.phase with
  | .releasing (slot :: lostHandles) =>
    let cause := Cause.lost ((s.multi.find slot).bind Addition.request)
    some { s.record (.removed (s.handles slot).callback cause) with
      multi := s.multi.remove slot
      phase := .releasing lostHandles
      completing := some (.called slot ⟨.OPERATION_TIMEDOUT, 0, false⟩ cause) }
  | .releasing [] => some { s with phase := if s.isStarted then .cleaning else .looping }
  | _ => none

/-- The handles that have not been used for long, as `old` has it, are cleaned up.
SOURCE: NetworkCurl.cpp:1176-1193 -/
def clean (s : CurlState) (old : Slot → Bool) : Option CurlState :=
  match s.phase with
  | .cleaning =>
    let cleaned := fun slot : Slot =>
      kStaticHandleCount ≤ slot.val && (s.handles slot).handle && !(s.handles slot).inUse &&
        old slot
    some { s with
      handles := fun slot => { s.handles slot with
        handle := (s.handles slot).handle && !cleaned slot }
      multi := s.multi.removeAll cleaned
      phase := .looping }
  | _ => none

/-- The callbacks that `Teardown` finds. -/
def pending (s : CurlState) : List (ℕ × ℕ) :=
  (List.finRange kTotalHandleCount).filterMap fun slot =>
    let handle := s.handles slot
    if handle.handle && handle.inUse then handle.callback.map fun callback => (callback, handle.id)
    else none

/-- `Teardown`, up to the callbacks.
SOURCE: NetworkCurl.cpp:305-347 -/
def teardown (s : CurlState) : Option CurlState :=
  match s.phase with
  | .leaving =>
    some { s with
      events := []
      handles := fun slot => { s.handles slot with handle := false }
      multi := Multi.empty
      phase := .offline s.pending }
  | _ => none

/-- SOURCE: NetworkCurl.cpp:349-358, 1194-1199 -/
def answerOffline (s : CurlState) : Option CurlState :=
  match s.phase with
  | .offline ((callback, id) :: completedMessages) =>
    some { s.record (.answered callback .offline id ErrorCode.OFFLINE_ERROR.value) with
      phase := .offline completedMessages }
  | .offline [] => some { s with state := .STOPPED, phase := .ended }
  | _ => none

end CurlState

/-! ## Runs -/

/-- A step of the worker outside of `CompleteMessage`. -/
inductive WorkerStep where
  | runStarts
  | iterate
  | handleEvent (success : Bool)
  | checkAdded
  | failNext
  | transfer (addition : Addition) (a : Attempt)
  | performed
  | readMessage
  | restart (again : Bool)
  | findLost (lost : Slot → Bool)
  | skipLost
  | checkLost
  | releaseLost
  | clean (old : Slot → Bool)
  | teardown
  | answerOffline

inductive CurlEvent where
  | initializeWorker
  | deinitialize
  | stop
  | send (n : ℕ) (r : SendRequest)
  | sendImplementation (n : ℕ)
  | checkHandle (n : ℕ)
  | getHandle (n : ℕ) (created : Bool)
  | configureHandle (n : ℕ)
  | optionFails (n : ℕ)
  | checkAgain (n : ℕ)
  | addSendEvent (n : ℕ)
  | cancel (id : ℕ)
  | markCancelled (id : ℕ)
  | completeMessage
  | worker (step : WorkerStep)

namespace CurlState

def stepWorker (s : CurlState) : WorkerStep → Option CurlState
  | .runStarts => s.runStarts
  | .iterate => s.iterate
  | .handleEvent success => s.handleEvent success
  | .checkAdded => s.checkAdded
  | .failNext => s.failNext
  | .transfer addition a => s.transfer addition a
  | .performed => s.performed
  | .readMessage => s.readMessage
  | .restart again => s.restart again
  | .findLost lost => s.findLost lost
  | .skipLost => s.skipLost
  | .checkLost => s.checkLost
  | .releaseLost => s.releaseLost
  | .clean old => s.clean old
  | .teardown => s.teardown
  | .answerOffline => s.answerOffline

def step (s : CurlState) : CurlEvent → Option CurlState
  | .initializeWorker => s.initializeWorker
  | CurlEvent.deinitialize => some s.deinitialize
  | .stop => s.stop
  | .send n r => s.send n r
  | .sendImplementation n => s.sendImplementation n
  | .checkHandle n => s.checkHandle n
  | .getHandle n created => s.getHandle n created
  | .configureHandle n => s.configureHandle n
  | .optionFails n => s.optionFails n
  | .checkAgain n => s.checkAgain n
  | .addSendEvent n => s.addSendEvent n
  | .cancel id => some (s.cancel id)
  | .markCancelled id => s.markCancelled id
  | .completeMessage => s.completeMessage
  | .worker step => if s.completing.isSome then none else s.stepWorker step

/-- The state a run of a new `NetworkCurl` ends in, if all its events can happen. -/
def run (events : List CurlEvent) : Option CurlState := runFrom step new events

end CurlState

end OlpEdgeSdk.Model.NetworkCurl

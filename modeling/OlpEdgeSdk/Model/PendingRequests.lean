import OlpEdgeSdk.Base.Runs
import OlpEdgeSdk.Base.SortedMap
import OlpEdgeSdk.Model.Requests

/-!
# Pending requests of a catalog client

`CatalogClientImpl` registers every request it passes to a repository in `PendingRequests`:
a placeholder before the repository is called, its token after. The callback it passes removes
the entry again. The repositories are outside code here: one can call the callback it was
given at any time after it was called, before it returns too, and any number of times.

The model is a step function. A call of the client's interface is split into the steps
between which callbacks and other calls can run: those that hold the lock of
`PendingRequests`, and the calls of a repository. Keys are drawn from a counter that does not
overflow.

A token is named by the key of the request it cancels; a default-constructed one cancels
nothing. The last two fields of the state record what has happened and are read by no event.

SOURCE: PendingRequests.cpp, CatalogClientImpl.cpp
-/

set_option autoImplicit false

namespace OlpEdgeSdk.Model

open OlpEdgeSdk.Base

/-- SOURCE: PendingRequests.h:67-68 -/
structure PendingRequests where
  key : ℕ
  requestsMap : SortedMap ℕ (Option ℕ)

namespace PendingRequests

/-- The tokens that are cancelled, one by one and without the lock.
SOURCE: PendingRequests.cpp:30-39 -/
def cancelPendingRequests (p : PendingRequests) : List ℕ :=
  p.requestsMap.entries.filterMap Prod.snd

/-- SOURCE: PendingRequests.cpp:41-46 -/
def generateRequestPlaceholder (p : PendingRequests) : PendingRequests × ℕ :=
  (⟨p.key + 1, p.requestsMap.insert (p.key + 1) none⟩, p.key + 1)

/-- SOURCE: PendingRequests.cpp:48-56 -/
def insert (p : PendingRequests) (request : Option ℕ) (key : ℕ) : PendingRequests × Bool :=
  match p.requestsMap.find key with
  | none => (p, false)
  | some _ => ({ p with requestsMap := p.requestsMap.insert key request }, true)

/-- SOURCE: PendingRequests.cpp:58-66 -/
def remove (p : PendingRequests) (key : ℕ) : PendingRequests × Bool :=
  match p.requestsMap.find key with
  | some _ => ({ p with requestsMap := p.requestsMap.erase key }, true)
  | none => (p, false)

end PendingRequests

namespace CatalogClientImpl

/-- What a repository is given to call. -/
inductive Callback where
  /-- `if (pending_requests->Remove(request_key)) callback(response)` -/
  | request
  /-- `pending_requests->Remove(onlineKey)` -/
  | background
  /-- The callback of the caller, as it is. -/
  | caller
deriving DecidableEq, Repr

/-- How a function of the interface passes a request on: the callback it gives to the
repository, and whether a background request follows. -/
structure Routine where
  callback : Callback
  background : Bool
deriving DecidableEq, Repr

/-- The pattern of the four functions that ask a repository. -/
def requestRoutine (fetchOption : FetchOptions) : Routine :=
  ⟨.request, fetchOption = .cacheWithUpdate⟩

/-- SOURCE: CatalogClientImpl.cpp:78-110 -/
def getCatalog (r : CatalogRequest) : Routine := requestRoutine r.fetchOption

/-- SOURCE: CatalogClientImpl.cpp:120-153 -/
def getCatalogMetadataVersion (r : CatalogVersionRequest) : Routine :=
  requestRoutine r.fetchOption

/-- SOURCE: CatalogClientImpl.cpp:165-194 -/
def getPartitions (r : PartitionsRequest) : Routine := requestRoutine r.fetchOption

/-- SOURCE: CatalogClientImpl.cpp:205-232 -/
def getData (r : DataRequest) : Routine := requestRoutine r.fetchOption

/-- A `request_callback` is made here too, but the repository is given `callback`.
SOURCE: CatalogClientImpl.cpp:242-255 -/
def prefetchTiles : Routine := ⟨.caller, false⟩

/-- A call of the interface. -/
inductive ApiCall where
  | getCatalog (r : CatalogRequest)
  | getCatalogMetadataVersion (r : CatalogVersionRequest)
  | getPartitions (r : PartitionsRequest)
  | getData (r : DataRequest)
  | prefetchTiles
deriving DecidableEq, Repr

def ApiCall.routine : ApiCall → Routine
  | .getCatalog r => CatalogClientImpl.getCatalog r
  | .getCatalogMetadataVersion r => CatalogClientImpl.getCatalogMetadataVersion r
  | .getPartitions r => CatalogClientImpl.getPartitions r
  | .getData r => CatalogClientImpl.getData r
  | .prefetchTiles => CatalogClientImpl.prefetchTiles

/-- How far a call has come. -/
inductive Call where
  /-- The placeholder was generated; the repository is called next. -/
  | registered (requestKey : ℕ) (routine : Routine)
  /-- The repository was called and has the callback. -/
  | running (requestKey : ℕ) (background : Bool)
  /-- The placeholder of the background request was generated. -/
  | onlineRegistered (requestKey onlineKey : ℕ)
  /-- The repository was called for the background request. -/
  | onlineRunning (requestKey onlineKey : ℕ)
  /-- The token of the background request was inserted. -/
  | onlineInserted (requestKey : ℕ)
deriving DecidableEq, Repr

/-- The key a call was registered with. -/
def Call.requestKey : Call → ℕ
  | .registered requestKey _ => requestKey
  | .running requestKey _ => requestKey
  | .onlineRegistered requestKey _ => requestKey
  | .onlineRunning requestKey _ => requestKey
  | .onlineInserted requestKey => requestKey

/-- The state of a client and of the calls that are under way.
* `calls`: the calls of the interface that have not returned;
* `started`: the requests and background requests a repository was called for;
* `due`: requests whose callback is about to run;
* `finished`: requests whose callback has run;
* `cancelling`, `cancelled`: the tokens `CancelPendingRequests` is about to cancel, and has
  cancelled. -/
structure State where
  pending : PendingRequests
  calls : List Call
  started : List (ℕ × Callback)
  due : List ℕ
  cancelling : List ℕ
  finished : List ℕ
  cancelled : List ℕ

/-- The events. -/
inductive Event where
  /-- A call of the interface generates its placeholder. -/
  | call (api : ApiCall)
  /-- A call of the interface takes its next step. -/
  | advance (requestKey : ℕ)
  /-- A repository calls the callback it was given for a request. -/
  | answer (key : ℕ)
  /-- The callback of the caller runs. -/
  | invoke (key : ℕ)
  /-- `CancelPendingRequests` copies the map. -/
  | cancelPendingRequests
  /-- `CancelPendingRequests` cancels a token of its copy. -/
  | cancelToken (key : ℕ)
deriving DecidableEq, Repr

namespace State

def init : State := ⟨⟨0, SortedMap.empty⟩, [], [], [], [], [], []⟩

/-- The next step of a call that was taken out of `calls`. -/
def advance (s : State) : Call → State
  | .registered requestKey routine => { s with
      started := s.started ++ [(requestKey, routine.callback)]
      calls := s.calls ++ [.running requestKey routine.background] }
  | .running requestKey true =>
    let (pending, onlineKey) := s.pending.generateRequestPlaceholder
    { s with pending := pending, calls := s.calls ++ [.onlineRegistered requestKey onlineKey] }
  | .running requestKey false =>
    { s with pending := (s.pending.insert (some requestKey) requestKey).1 }
  | .onlineRegistered requestKey onlineKey => { s with
      started := s.started ++ [(onlineKey, .background)]
      calls := s.calls ++ [.onlineRunning requestKey onlineKey] }
  | .onlineRunning requestKey onlineKey => { s with
      pending := (s.pending.insert (some onlineKey) onlineKey).1
      calls := s.calls ++ [.onlineInserted requestKey] }
  | .onlineInserted requestKey =>
    { s with pending := (s.pending.insert (some requestKey) requestKey).1 }

/-- A repository calls the callback of a request. -/
def answer (s : State) (key : ℕ) : Callback → State
  | .request =>
    let (pending, removed) := s.pending.remove key
    { s with pending := pending, due := if removed then s.due ++ [key] else s.due }
  | .background => { s with
      pending := (s.pending.remove key).1
      finished := s.finished ++ [key] }
  | .caller => { s with due := s.due ++ [key] }

/-- What an event does to the state, if it can happen. -/
def step (s : State) : Event → Option State
  | .call api =>
    let (pending, requestKey) := s.pending.generateRequestPlaceholder
    some { s with pending := pending, calls := s.calls ++ [.registered requestKey api.routine] }
  | .advance requestKey =>
    match s.calls.find? fun c => c.requestKey = requestKey with
    | some c =>
      some ({ s with calls := s.calls.eraseP fun c => c.requestKey = requestKey }.advance c)
    | none => none
  | .answer key =>
    match s.started.find? fun p => p.1 = key with
    | some p => some (s.answer key p.2)
    | none => none
  | .invoke key =>
    if key ∈ s.due then
      some { s with due := s.due.erase key, finished := s.finished ++ [key] }
    else none
  | .cancelPendingRequests =>
    some { s with cancelling := s.cancelling ++ s.pending.cancelPendingRequests }
  | .cancelToken key =>
    if key ∈ s.cancelling then
      some { s with cancelling := s.cancelling.erase key, cancelled := s.cancelled ++ [key] }
    else none

/-- The state after a run of events from the beginning. -/
def run (events : List Event) : Option State := runFrom step init events

end State

end CatalogClientImpl

end OlpEdgeSdk.Model

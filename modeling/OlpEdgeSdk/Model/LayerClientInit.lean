import OlpEdgeSdk.Base.Parties

/-!
# The initialisation of the versioned and the volatile layer client

`InitApiClients` looks up the services of its client one after the other, each lookup but the
first through `ExecuteOrCancelled`, and calls the callback it is given. The two clients differ in
the services. `init_in_progress_` is set when the lookups begin; the last lookup clears it before
the callback, an earlier one that fails after it.

`mutex_` is tried, not taken, at the start, and if it was free the call has it until it returns:
a lookup that answers before that runs its callback on a thread that owns the mutex, and locking
it there does not come back. An exception, of `unlock` without the lock or of `at(0)` on an empty
list of services, ends a call without its callback. The wait for another initialisation is taken
to end when the flag is clear.

SOURCE: VersionedLayerClientImpl.cpp, VolatileLayerClientImpl.cpp, ApiClientLookup.cpp
-/

set_option autoImplicit false

namespace OlpEdgeSdk.Model

open OlpEdgeSdk.Base

namespace LayerClientInit

/-- A service and its version. -/
structure Service where
  name : String
  version : String
deriving DecidableEq, Repr

/-- SOURCE: VersionedLayerClientImpl.cpp:99-155 -/
def versionedLayerServices : List Service :=
  [⟨"metadata", "v1"⟩, ⟨"config", "v1"⟩, ⟨"blob", "v1"⟩, ⟨"publish", "v2"⟩]

/-- SOURCE: VolatileLayerClientImpl.cpp:94-174 -/
def volatileLayerServices : List Service :=
  [⟨"config", "v1"⟩, ⟨"metadata", "v1"⟩, ⟨"volatile-blob", "v1"⟩, ⟨"query", "v1"⟩,
    ⟨"publish", "v2"⟩]

/-- The two clients. -/
inductive LayerClient where
  | versioned
  | volatile
deriving DecidableEq, Repr

def LayerClient.services : LayerClient → List Service
  | .versioned => versionedLayerServices
  | .volatile => volatileLayerServices

/-- What the calls share: the url of the lookup service for the partition of the catalog, the
base url of the client of the last service, if there is one, and the flag. -/
structure InitState where
  lookupUrl : List Char
  apiclientPublish : Option (List Char)
  initInProgress : Bool
deriving DecidableEq, Repr

/-- Where a call is: before the test of the flag, waiting for it, past it, waiting for the answer
of a lookup with the services that come after it, before it clears the flag after an error, over,
or locking a mutex that its own thread owns. -/
inductive InitPhase where
  | begun
  | waiting
  | tested
  | lookingUp (rest : List Service)
  | failing
  | over
  | hanging
deriving DecidableEq, Repr

/-- A call of `InitApiClients`: where it is, whether its `cancel_context` is cancelled, whether it
has not returned, and whether its thread owns `mutex_` until then. -/
structure InitCall where
  phase : InitPhase
  isCancelled : Bool
  inside : Bool
  ownsMutex : Bool
deriving DecidableEq, Repr

/-- A call that begins, possibly on a thread that has the mutex, inside the callback of a call
whose last lookup has answered. -/
def InitCall.begin (ownsMutex : Bool) : InitCall := ⟨.begun, false, true, ownsMutex⟩

/-- What happens to a call. The answer of a lookup is the list of base urls, or none for an error;
`inFrame` says that it comes before `InitApiClients` has returned, on its thread. -/
inductive InitEvent where
  | test (locked : Bool)
  | wake
  | start
  | answer (apis : Option (List (List Char))) (inFrame : Bool)
  | clear
  | returns
  | cancelOperation
deriving DecidableEq, Repr

/-- `LookupApi` for the first of some services. The client of the last one is given the url of
the lookup service, if the partition has one.
SOURCE: ApiClientLookup.cpp:44-80 -/
def lookupApi (s : InitState) (c : InitCall) : List Service → Option (InitState × InitCall)
  | [] => none
  | [_] =>
    some ({ s with
      apiclientPublish := if s.lookupUrl = [] then s.apiclientPublish else some s.lookupUrl },
      { c with phase := .lookingUp [] })
  | _ :: service :: rest => some (s, { c with phase := .lookingUp (service :: rest) })

/-- The callback of a lookup that is not the last one.
SOURCE: VersionedLayerClientImpl.cpp:104-116, 123-134, 141-152,
VolatileLayerClientImpl.cpp:99-110, 117-129, 136-147, 155-166 -/
def serviceCallback (s : InitState) (c : InitCall) (service : Service) (rest : List Service)
    (apis : Option (List (List Char))) (inFrame : Bool) : Option (InitState × InitCall) :=
  match apis with
  | none => some (s, { c with phase := if inFrame && c.ownsMutex then .hanging else .failing })
  | some [] => some (s, { c with phase := .over })
  | some (_ :: _) =>
    -- `cancel_function` only calls the callback
    if c.isCancelled then some (s, { c with phase := .over })
    else lookupApi s c (service :: rest)

/-- The callback of the last lookup.
SOURCE: VersionedLayerClientImpl.cpp:86-97, VolatileLayerClientImpl.cpp:81-92 -/
def publishApiCallback (s : InitState) (c : InitCall) (apis : Option (List (List Char)))
    (inFrame : Bool) : InitState × InitCall :=
  if inFrame && c.ownsMutex then (s, { c with phase := .hanging })
  else
    match apis with
    | some (url :: _) =>
      ({ s with initInProgress := false, apiclientPublish := some url }, { c with phase := .over })
    | some [] | none => ({ s with initInProgress := false }, { c with phase := .over })

/-- SOURCE: VersionedLayerClientImpl.cpp:58-156, VolatileLayerClientImpl.cpp:53-175 -/
def initStep (services : List Service) (s : InitState) (c : InitCall) :
    InitEvent → Option (InitState × InitCall)
  | .test locked =>
    match c.phase with
    | .begun =>
      if locked && c.ownsMutex then none
      else if s.initInProgress then
        -- without the lock `unlock` throws
        some (s, { c with phase := if locked then .waiting else .over })
      else some (s, { c with phase := .tested, ownsMutex := locked || c.ownsMutex })
    | _ => none
  | .wake =>
    match c.phase with
    | .waiting =>
      if s.initInProgress then none
      else some (s, { c with phase := .tested, ownsMutex := true })
    | _ => none
  | .start =>
    match c.phase with
    | .tested =>
      if s.apiclientPublish.any (· ≠ []) then some (s, { c with phase := .over })
      else lookupApi { s with initInProgress := true, apiclientPublish := some [] } c services
    | _ => none
  | .answer apis inFrame =>
    match c.phase with
    | .lookingUp rest =>
      if inFrame && !c.inside then none
      else
        match rest with
        | [] => some (publishApiCallback s c apis inFrame)
        | service :: rest => serviceCallback s c service rest apis inFrame
    | _ => none
  | .clear =>
    match c.phase with
    | .failing => some ({ s with initInProgress := false }, { c with phase := .over })
    | _ => none
  | .returns =>
    match c.phase with
    | .lookingUp _ | .failing | .over => some (s, { c with inside := false })
    | _ => none
  | .cancelOperation => some (s, { c with isCancelled := true })

abbrev InitSystem : Type := Parties InitState InitCall

/-- A new call begins, or one that is there goes on. -/
def initSystemStep (client : LayerClient) :
    InitSystem → Action Bool InitEvent → Option InitSystem :=
  Parties.step InitCall.begin (initStep client.services)

/-- A client before its first call. -/
def initial (lookupUrl : List Char) : InitSystem := ⟨⟨lookupUrl, none, false⟩, []⟩

end LayerClientInit

end OlpEdgeSdk.Model

import OlpEdgeSdk.Base.Parties

/-!
# The initialisation of the stream layer client

The first calls of `PublishData` look up the services and fetch the catalog. A call that finds
something missing takes the init lock first; whether it did or not, it goes through the
initialisation, whose steps pass over what is there by then, and at its end it calls
`NotifyInitCompleted` or `NotifyInitAborted`. The token of a call cancels its context and then
calls `NotifyInitAborted`, each time it is cancelled.

A call larger than twenty MiB also needs the publish and blob services. `initialising` is what
the lock is for: it is set from the `AquireInitLock` of a call to the first notification that
the call or its token makes.

SOURCE: olp-cpp-sdk-dataservice-write/src/StreamLayerClientImpl.cpp, ApiClientLookup.cpp
-/

set_option autoImplicit false

namespace OlpEdgeSdk.Model

open OlpEdgeSdk.Base

namespace StreamLayerClientImpl

/-- What the calls share: the url of the lookup service for the partition of the catalog, the
base urls of the clients there are, the id of the catalog model, and the flag. -/
structure InitState where
  lookupUrl : List Char
  apiclientIngest : Option (List Char)
  apiclientConfig : Option (List Char)
  apiclientPublish : Option (List Char)
  apiclientBlob : Option (List Char)
  catalogModelId : List Char
  initInprogress : Bool

/-- Where a call is: before its test, in `AquireInitLock`, before its initialisation, waiting for
a sub-request, between two of them, before a notification, or done. `contextLocked` says that
the notification is made inside `ExecuteOrCancelled`. -/
inductive InitPhase where
  | begun
  | waiting
  | entered
  | ingestLookup
  | configLookup
  | apiClientsReady
  | publishLookup
  | blobLookup
  | blobClientReady
  | catalogLookup
  | aborting (contextLocked : Bool)
  | completing (contextLocked : Bool)
  | ended
deriving DecidableEq, Repr

/-- A call of `PublishData`: its size, where it is, its context, whether it has sent a request, so
that its token is out, how many cancels of the token are before their notification. -/
structure PublishCall where
  greaterThanTwentyMib : Bool
  phase : InitPhase
  isCancelled : Bool
  launched : Bool
  cancels : ℕ
  initialising : Bool

/-- A call that begins. -/
def PublishCall.begin (greaterThanTwentyMib : Bool) : PublishCall :=
  ⟨greaterThanTwentyMib, .begun, false, false, 0, false⟩

/-- What a call does next, how its sub-request ends, and the two steps of its token. -/
inductive InitEvent where
  | test
  | acquire
  | proceed
  | fail
  | found (answer : List Char)
  | notifyAborted
  | notifyCompleted
  | cancelOperation
  | cancelNotify
deriving DecidableEq, Repr

/-- There is a client, and its base url is not empty. -/
def hasUrl (client : Option (List Char)) : Bool := client.any (· ≠ [])

/-- The tests that decide whether a call takes the lock.
SOURCE: StreamLayerClientImpl.cpp:449, 537-538 -/
def needsInit (s : InitState) (greaterThanTwentyMib : Bool) : Bool :=
  s.catalogModelId = [] || (greaterThanTwentyMib && !hasUrl s.apiclientBlob)

/-- Where `LookupApi` leaves a call: without a lookup url it answers with an error at once.
SOURCE: ApiClientLookup.cpp:50-89 -/
def lookupApi (s : InitState) (pending : InitPhase) (c : PublishCall) : PublishCall :=
  if s.lookupUrl = [] then { c with phase := .aborting true }
  else { c with phase := pending, launched := true }

/-- `InitCatalogModel`, run inside `ExecuteOrCancelled`.
SOURCE: StreamLayerClientImpl.cpp:174-183 -/
def initCatalogModel (s : InitState) (c : PublishCall) : InitState × PublishCall :=
  if s.catalogModelId ≠ [] then (s, { c with phase := .completing true })
  else (s, { c with phase := .catalogLookup, launched := true })

/-- What follows the services every call needs, run inside `ExecuteOrCancelled`. The clients that
`LookupApi` is given have the lookup url, or none.
SOURCE: StreamLayerClientImpl.cpp:129-141, 467, 555-566 -/
def afterApiClients (s : InitState) (c : PublishCall) : InitState × PublishCall :=
  if c.greaterThanTwentyMib && !hasUrl s.apiclientBlob then
    ({ s with apiclientPublish := some s.lookupUrl }, lookupApi s .publishLookup c)
  else initCatalogModel s c

/-- `InitApiClients`, run inside `ExecuteOrCancelled`.
SOURCE: StreamLayerClientImpl.cpp:84-96 -/
def initApiClients (s : InitState) (c : PublishCall) : InitState × PublishCall :=
  if hasUrl s.apiclientConfig then afterApiClients s c
  else ({ s with apiclientIngest := some s.lookupUrl }, lookupApi s .ingestLookup c)

/-- The next piece of the initialisation, through `ExecuteOrCancelled`; if the context is
cancelled, only the callback of the call is called.
SOURCE: StreamLayerClientImpl.cpp:455-520, 543-600 -/
def proceed (s : InitState) (c : PublishCall) : Option (InitState × PublishCall) :=
  match c.phase with
  | .entered =>
    some (if c.isCancelled then (s, { c with phase := .ended }) else initApiClients s c)
  | .apiClientsReady =>
    some (if c.isCancelled then (s, { c with phase := .ended }) else afterApiClients s c)
  | .blobClientReady =>
    some (if c.isCancelled then (s, { c with phase := .ended }) else initCatalogModel s c)
  | _ => none

/-- A sub-request succeeds; a lookup has found at least one service. After the first lookup of a
pair the next one is made through `ExecuteOrCancelled`, here with the error of the call if the
context is cancelled.
SOURCE: StreamLayerClientImpl.cpp:97-126, 142-171, 185-194 -/
def found (s : InitState) (c : PublishCall) (answer : List Char) :
    Option (InitState × PublishCall) :=
  match c.phase with
  | .ingestLookup =>
    let s := { s with apiclientIngest := some answer }
    if c.isCancelled then some (s, { c with phase := .aborting true })
    else some ({ s with apiclientConfig := some s.lookupUrl }, lookupApi s .configLookup c)
  | .configLookup =>
    some ({ s with apiclientConfig := some answer }, { c with phase := .apiClientsReady })
  | .publishLookup =>
    let s := { s with apiclientPublish := some answer }
    if c.isCancelled then some (s, { c with phase := .aborting true })
    else some ({ s with apiclientBlob := some s.lookupUrl }, lookupApi s .blobLookup c)
  | .blobLookup =>
    some ({ s with apiclientBlob := some answer }, { c with phase := .blobClientReady })
  | .catalogLookup =>
    some ({ s with catalogModelId := answer }, { c with phase := .completing false })
  | _ => none

/-- The call waits for a sub-request. -/
def InitPhase.isPending : InitPhase → Bool
  | .ingestLookup | .configLookup | .publishLookup | .blobLookup | .catalogLookup => true
  | _ => false

/-- The call is inside `ExecuteOrCancelled`. -/
def InitPhase.contextLocked : InitPhase → Bool
  | .aborting contextLocked | .completing contextLocked => contextLocked
  | _ => false

/-- The flag is cleared, and the initialisation of this call is over.
SOURCE: StreamLayerClientImpl.cpp:203-213 -/
def notifyInit (s : InitState) (c : PublishCall) : InitState × PublishCall :=
  ({ s with initInprogress := false }, { c with initialising := false })

/-- SOURCE: StreamLayerClientImpl.cpp:197-213, 445-601 -/
def initStep (s : InitState) (c : PublishCall) : InitEvent → Option (InitState × PublishCall)
  | .test =>
    match c.phase with
    | .begun =>
      if needsInit s c.greaterThanTwentyMib then some (s, { c with phase := .waiting })
      else some (s, { c with phase := .entered })
    | _ => none
  | .acquire =>
    match c.phase with
    | .waiting =>
      if s.initInprogress then none
      else some ({ s with initInprogress := true },
        { c with phase := .entered, initialising := true })
    | _ => none
  | .proceed => proceed s c
  | .fail => if c.phase.isPending then some (s, { c with phase := .aborting false }) else none
  | .found answer => found s c answer
  | .notifyAborted =>
    match c.phase with
    | .aborting _ => some (notifyInit s { c with phase := .ended })
    | _ => none
  | .notifyCompleted =>
    match c.phase with
    | .completing _ => some (notifyInit s { c with phase := .ended })
    | _ => none
  | .cancelOperation =>
    -- the token is out, and the context is not locked
    if (c.launched || c.phase = .ended) && !c.phase.contextLocked then
      some (s, { c with isCancelled := true, cancels := c.cancels + 1 })
    else none
  | .cancelNotify =>
    if 0 < c.cancels then some (notifyInit s { c with cancels := c.cancels - 1 }) else none

abbrev InitSystem : Type := Parties InitState PublishCall

/-- A new call begins, or one that is there goes on. -/
def initSystemStep : InitSystem → Action Bool InitEvent → Option InitSystem :=
  Parties.step PublishCall.begin initStep

end StreamLayerClientImpl

end OlpEdgeSdk.Model

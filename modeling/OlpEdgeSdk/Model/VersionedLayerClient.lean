import Mathlib.Data.List.Infix
import OlpEdgeSdk.Model.LayerClientInit
import OlpEdgeSdk.Model.Repositories

/-!
# The operations of the versioned layer client

Every operation runs `InitApiClients` and then a sub-request of its own, each through
`ExecuteOrCancelled`, and keeps a token in `tokenList_`: it takes an id, starts its work and adds
the token when the work has been started, and the callbacks remove it. `PublishToBatch` goes
through three such parts, the model of the catalog, the blob and the partition.

An operation is a chain of callbacks, and its state is the place it has reached in it. What lies
between two answers is one step. An answer that comes `inFrame` runs its callback inside the call
that has asked, on the same thread; an answer that comes later runs it on a thread of its own.
`mutex_` is tried, not taken, at the start of `InitApiClients`, whose thread has it, if it was
free, until it returns; the callback of the last lookup takes it for the callback it calls. The
wait for another initialisation is taken to end when the flag is clear. A token is represented by
its id; the ids are the numbers of the calls and do not wrap.

SOURCE: VersionedLayerClientImpl.cpp, CancellationTokenList.cpp, ApiClientLookup.cpp
-/

set_option autoImplicit false

namespace OlpEdgeSdk.Model.VersionedLayerClient

open OlpEdgeSdk.Base OlpEdgeSdk.Model.LayerClientInit

/-! ## The list of tokens -/

/-- Insert at the upper bound of the id.
SOURCE: CancellationTokenList.cpp:42-48 -/
def addTask (id : ℕ) (tokenList : List ℕ) : List ℕ :=
  tokenList.takeWhile (· ≤ id) ++ id :: tokenList.dropWhile (· ≤ id)

/-- Erase the entry at the lower bound of the id, if it is one of the id.
SOURCE: CancellationTokenList.cpp:50-56 -/
def removeTask (id : ℕ) (tokenList : List ℕ) : List ℕ :=
  match tokenList.dropWhile (· < id) with
  | [] => tokenList
  | task :: rest => if task = id then tokenList.takeWhile (· < id) ++ rest else tokenList

/-! ## Requests -/

/-- A layer of the catalog. -/
structure Layer where
  id : List Char
  contentType : List Char
deriving DecidableEq, Repr

/-- What the client keeps of its catalog. Before the first answer the id is empty. -/
structure Catalog where
  id : List Char
  layers : List Layer
deriving DecidableEq, Repr

/-- SOURCE: VersionedLayerClientImpl.cpp:670-683 -/
def Catalog.findContentTypeForLayerId (catalog : Catalog) (layerId : List Char) : List Char :=
  match catalog.layers.find? fun layer => layer.id = layerId with
  | none => []
  | some layer => layer.contentType

/-- The calls a client takes. -/
inductive Request where
  | startBatch (layers : Option (List (List Char)))
  | getBaseVersion
  | getBatch (publicationId : Option (List Char))
  | completeBatch (publicationId : Option (List Char))
  | cancelBatch (publicationId : Option (List Char))
  | publishToBatch (publicationId : Option (List Char)) (layerId : List Char)
      (partitionId : Option (List Char)) (data : List Char)
  | checkDataExists (layerId dataHandle : List Char)
deriving DecidableEq, Repr

/-- The requests an operation makes to the services. -/
inductive SubRequest where
  | lookup (service : Service)
  | initPublication (layerIds : List (List Char))
  | getLatestCatalogVersion
  | getPublication (publicationId : List Char)
  | submitPublication (publicationId : List Char)
  | cancelPublication (publicationId : List Char)
  | getCatalog
  | putBlob (layerId contentType dataHandle data : List Char)
  | uploadPartitions (publicationId layerId partition dataHandle : List Char)
  | checkBlobExists (layerId dataHandle : List Char)
deriving DecidableEq, Repr

/-- What `PublishToBatch` captures: its arguments and the data handle it has generated. -/
structure Publishing where
  publicationId : List Char
  layerId : List Char
  partition : List Char
  data : List Char
  dataHandle : List Char
deriving DecidableEq, Repr

/-- What `InitApiClients` is run for: the sub-request of an operation, or one of the parts of
`PublishToBatch`. -/
inductive Goal where
  | request (request : SubRequest)
  | catalog (publishing : Publishing)
  | blob (publishing : Publishing) (contentType : List Char)
  | partition (publishing : Publishing)
deriving DecidableEq, Repr

/-- The result of a sub-request or of an operation; the text is an id or a version, where there
is one. -/
abbrev Result : Type := Except ApiError (Option (List Char))

/-- What an operation does: the error text with which it rejects its arguments, what it runs
`InitApiClients` for, what its callback makes of the answer to its last sub-request, and whether
the callbacks for a failed initialisation and a cancellation remove its token. -/
structure Operation where
  invalid : Option (List Char)
  goal : Goal
  respond : Result → Result
  removesOnAbort : Bool

/-- A response without an id has no error either.
SOURCE: VersionedLayerClientImpl.cpp:169-229 -/
def startBatch (layers : Option (List (List Char))) : Operation where
  invalid := if layers.getD [] = [] then some "Invalid layer".toList else none
  goal := .request (.initPublication (layers.getD []))
  respond
    | .ok none => .error (.ofCode .unknown [])
    | response => response
  removesOnAbort := true

/-- SOURCE: VersionedLayerClientImpl.cpp:241-296 -/
def getBaseVersion : Operation where
  invalid := none
  goal := .request .getLatestCatalogVersion
  respond
    | .error e =>
      if e.httpStatusCode = 404 ∧ "Catalog has no versions".toList <:+: e.message then .ok none
      else .error e
    | response => response
  removesOnAbort := true

/-- An operation on a publication: `GetBatch`, `CompleteBatch` and `CancelBatch` differ in the
sub-request. -/
def onPublication (function : List Char → SubRequest) (publicationId : Option (List Char)) :
    Operation where
  invalid := if publicationId.getD [] = [] then some "Invalid publication".toList else none
  goal := .request (function (publicationId.getD []))
  respond := id
  removesOnAbort := true

/-- SOURCE: VersionedLayerClientImpl.cpp:309-362 -/
def getBatch : Option (List Char) → Operation := onPublication .getPublication

/-- SOURCE: VersionedLayerClientImpl.cpp:375-428 -/
def completeBatch : Option (List Char) → Operation := onPublication .submitPublication

/-- SOURCE: VersionedLayerClientImpl.cpp:441-494 -/
def cancelBatch : Option (List Char) → Operation := onPublication .cancelPublication

/-- SOURCE: VersionedLayerClientImpl.cpp:510-579 -/
def publishToBatch (publicationId : Option (List Char)) (layerId : List Char)
    (partitionId : Option (List Char)) (data dataHandle : List Char) : Operation where
  invalid :=
    if publicationId.getD [] = [] then some "Invalid publication".toList
    else if layerId = [] then some "Invalid request".toList
    else none
  goal := .catalog ⟨publicationId.getD [], layerId, partitionId.getD [], data, dataHandle⟩
  respond
    | .error e => .error e
    | .ok _ => .ok (some (partitionId.getD []))
  removesOnAbort := true

/-- The callbacks for a failed initialisation and for a cancellation only call the callback.
SOURCE: VersionedLayerClientImpl.cpp:751-806 -/
def checkDataExists (layerId dataHandle : List Char) : Operation where
  invalid := if layerId = [] then some "Invalid layer".toList else none
  goal := .request (.checkBlobExists layerId dataHandle)
  respond := id
  removesOnAbort := false

/-- `dataHandle` is what `GenerateUuid` returns in the call. -/
def Request.operation (dataHandle : List Char) : Request → Operation
  | .startBatch layers => VersionedLayerClient.startBatch layers
  | .getBaseVersion => VersionedLayerClient.getBaseVersion
  | .getBatch publicationId => VersionedLayerClient.getBatch publicationId
  | .completeBatch publicationId => VersionedLayerClient.completeBatch publicationId
  | .cancelBatch publicationId => VersionedLayerClient.cancelBatch publicationId
  | .publishToBatch publicationId layerId partitionId data =>
    VersionedLayerClient.publishToBatch publicationId layerId partitionId data dataHandle
  | .checkDataExists layerId handle => VersionedLayerClient.checkDataExists layerId handle

/-! ## The state -/

/-- What the operations of a client share. -/
structure ClientState where
  init : InitState
  catalogModel : Catalog
  tokenList : List ℕ
deriving DecidableEq, Repr

/-- Where an operation is: before the test of the flag in `InitApiClients`, waiting for another
initialisation, waiting for a lookup with the services that come after it, waiting for a
sub-request, over with its callback called, ended by an exception, or locking a mutex that its
own thread owns. -/
inductive Stage where
  | entering (goal : Goal)
  | waiting (goal : Goal)
  | lookingUp (rest : List Service) (goal : Goal)
  | asking (request : SubRequest) (goal : Goal)
  | finished
  | thrown
  | hanging
deriving DecidableEq, Repr

/-- An operation: its id and its request, with the data handle it has generated; where it is;
whether its context is cancelled; whether its call has not returned, and whether it still runs on
the thread of its call; whether its thread owns `mutex_`, and has to clear the flag when the
callback returns; and what has happened so far, the results its callback was called with, the
sub-requests it has made and those that have succeeded. -/
structure Execution where
  id : ℕ
  request : Request
  dataHandle : List Char
  stage : Stage
  isCancelled : Bool
  inCall : Bool
  onCaller : Bool
  ownsMutex : Bool
  mustClear : Bool
  callbacks : List Result
  asked : List SubRequest
  succeeded : List SubRequest
deriving DecidableEq

namespace Execution

def operation (x : Execution) : Operation := x.request.operation x.dataHandle

/-- An answer in the frame of the call that has asked for it keeps the thread. -/
def answeredIn (x : Execution) (inFrame : Bool) : Execution :=
  if inFrame then x else { x with onCaller := false, ownsMutex := false }

/-- The frames of the call of an operation are gone once the call has returned. -/
def canAnswer (x : Execution) (inFrame : Bool) : Bool := !(inFrame && x.onCaller && !x.inCall)

/-- The call has come back from starting its work. -/
def returnable (x : Execution) : Bool :=
  match x.stage with
  | .lookingUp _ _ | .asking _ _ | .thrown => true
  | .finished => !x.mustClear
  | .entering _ | .waiting _ | .hanging => false

/-- The call can return: what still runs on its thread has come back. -/
def canReturn (x : Execution) : Bool := x.inCall && (!x.onCaller || x.returnable)

end Execution

/-! ## The callbacks -/

section

variable (s : ClientState) (x : Execution)

/-- The callback of the user is called. -/
def reply (result : Result) : ClientState × Execution :=
  (s, { x with stage := .finished, callbacks := x.callbacks ++ [result] })

/-- `RemoveTask`, and then the callback. -/
def finish (result : Result) : ClientState × Execution :=
  reply { s with tokenList := removeTask x.id s.tokenList } x result

/-- An operation gives up: its initialisation has failed or it is cancelled. -/
def abort (e : ApiError) : ClientState × Execution :=
  if x.operation.removesOnAbort then finish s x (.error e) else reply s x (.error e)

/-- SOURCE: CancellationContext.inl:30-46 -/
def executeOrCancelled (body : ClientState × Execution) : ClientState × Execution :=
  if x.isCancelled then abort s x operationCancelled else body

/-- A sub-request is made. -/
def ask (request : SubRequest) (goal : Goal) : ClientState × Execution :=
  (s, { x with stage := .asking request goal, asked := x.asked ++ [request] })

def initApiClients (goal : Goal) : ClientState × Execution :=
  (s, { x with stage := .entering goal })

/-- The message of `UploadBlob` for a layer that the catalog does not have. -/
def layerNotFound (layerId : List Char) : ApiError :=
  .ofCode .invalidArgument ("Unable to find the Layer ID (".toList ++ layerId ++
    ") provided in the request in the Catalog specified when creating ".toList ++
    "this VersionedLayerClient instance.".toList)

/-- SOURCE: VersionedLayerClientImpl.cpp:685-737 -/
def uploadBlob (p : Publishing) : ClientState × Execution :=
  let contentType := s.catalogModel.findContentTypeForLayerId p.layerId
  if contentType = [] then finish s x (.error (layerNotFound p.layerId))
  else executeOrCancelled s x (initApiClients s x (.blob p contentType))

/-- SOURCE: VersionedLayerClientImpl.cpp:622-668 -/
def uploadPartition (p : Publishing) : ClientState × Execution :=
  executeOrCancelled s x (initApiClients s x (.partition p))

/-- The callback that `InitApiClients` is given.
SOURCE: VersionedLayerClientImpl.cpp:211-222, 604-619, 655-666, 724-735 -/
def initCallback (goal : Goal) : Option ApiError → ClientState × Execution
  | some e => abort s x e
  | none =>
    match goal with
    | .request request => executeOrCancelled s x (ask s x request goal)
    | .catalog p =>
      if s.catalogModel.id ≠ [] then uploadBlob s x p
      else executeOrCancelled s x (ask s x .getCatalog goal)
    | .blob p contentType =>
      executeOrCancelled s x (ask s x (.putBlob p.layerId contentType p.dataHandle p.data) goal)
    | .partition p =>
      executeOrCancelled s x
        (ask s x (.uploadPartitions p.publicationId p.layerId p.partition p.dataHandle) goal)

/-- The callback of the last lookup. It takes the mutex first.
SOURCE: VersionedLayerClientImpl.cpp:86-97 -/
def publishApiCallback (goal : Goal) (apis : Except ApiError (List (List Char))) :
    ClientState × Execution :=
  if x.ownsMutex then (s, { x with stage := .hanging })
  else
    let s := { s with init.initInProgress := false }
    let x := { x with ownsMutex := true }
    match apis with
    | .error e => initCallback s x goal (some e)
    | .ok [] => (s, { x with stage := .thrown })
    | .ok (url :: _) => initCallback { s with init.apiclientPublish := some url } x goal none

/-- The callback of a lookup that is not the last one, for an error: the flag is cleared after
the callback.
SOURCE: VersionedLayerClientImpl.cpp:105-111, 124-130, 142-148 -/
def lookupFailed (e : ApiError) : ClientState × Execution :=
  abort s { x with mustClear := true } e

def invalidHrn : ApiError := .ofCode .notFound "Invalid or broken HRN".toList

/-- `LookupApi` for the first of some services. The client of the last one is given the url of
the lookup service.
SOURCE: ApiClientLookup.cpp:44-80 -/
def lookupApi (goal : Goal) : List Service → ClientState × Execution
  | [] => initCallback s x goal none
  | service :: rest =>
    if s.init.lookupUrl = [] then
      if rest = [] then publishApiCallback s x goal (.error invalidHrn)
      else lookupFailed s x invalidHrn
    else
      ({ s with init.apiclientPublish :=
          if rest = [] then some s.init.lookupUrl else s.init.apiclientPublish },
        { x with stage := .lookingUp rest goal, asked := x.asked ++ [.lookup service] })

/-- SOURCE: VersionedLayerClientImpl.cpp:104-116, 123-134, 141-152 -/
def serviceCallback (goal : Goal) (rest : List Service)
    (apis : Except ApiError (List (List Char))) : ClientState × Execution :=
  match apis with
  | .error e => lookupFailed s x e
  | .ok [] => (s, { x with stage := .thrown })
  | .ok (_ :: _) => executeOrCancelled s x (lookupApi s x goal rest)

/-- `InitApiClients` past the test of the flag.
SOURCE: VersionedLayerClientImpl.cpp:69-84, 154-155 -/
def tested (goal : Goal) : ClientState × Execution :=
  if s.init.apiclientPublish.any (· ≠ []) then initCallback s x goal none
  else
    lookupApi { s with init.initInProgress := true, init.apiclientPublish := some [] } x goal
      versionedLayerServices

/-- `InitApiClients` from the attempt on the mutex on. Without it `unlock` throws.
SOURCE: VersionedLayerClientImpl.cpp:58-68 -/
def enter (goal : Goal) (locked : Bool) : ClientState × Execution :=
  if s.init.initInProgress then
    (s, { x with stage := if locked then .waiting goal else .thrown })
  else tested s { x with ownsMutex := locked || x.ownsMutex } goal

/-- The callback of `GetCatalog`.
SOURCE: VersionedLayerClientImpl.cpp:590-597, 561-569 -/
def initCatalogCallback (p : Publishing) (response : Except ApiError Catalog) :
    ClientState × Execution :=
  match response with
  | .error e => finish s x (.error e)
  | .ok catalog => uploadBlob { s with catalogModel := catalog } x p

/-- The callback of the sub-request of an operation, of the blob or of the partition.
SOURCE: VersionedLayerClientImpl.cpp:186-195, 251-266, 533-559, 777-785 -/
def answered (goal : Goal) (response : Result) : ClientState × Execution :=
  match goal, response with
  | .blob _ _, .error e => finish s x (.error e)
  | .blob p _, .ok _ => uploadPartition s x p
  | _, response => finish s x (x.operation.respond response)

/-- The call returns: the token is added, unless an exception leaves the call. -/
def callReturns : ClientState × Execution :=
  if x.onCaller && (x.stage = .thrown : Bool) then (s, { x with inCall := false })
  else ({ s with tokenList := addTask x.id s.tokenList }, { x with inCall := false })

end

/-! ## Steps -/

/-- What happens to an operation. `locked` is what the attempt on the mutex has found. -/
inductive Event where
  | enter (locked : Bool)
  | wake
  | lookedUp (apis : Except ApiError (List (List Char))) (inFrame : Bool)
  | gotCatalog (response : Except ApiError Catalog) (inFrame : Bool)
  | answered (response : Result) (inFrame : Bool)
  | clear
  | callReturns
  | cancelOperation
deriving DecidableEq

/-- A call that is made, with the data handle it would generate and whether its thread has the
mutex: it may be made inside the callback of another one. -/
structure Call where
  request : Request
  dataHandle : List Char
  ownsMutex : Bool
deriving DecidableEq

/-- A call rejects its arguments at once, or goes on to `InitApiClients`. -/
def Call.begin (id : ℕ) (call : Call) : Execution :=
  let operation := call.request.operation call.dataHandle
  let x : Execution :=
    { id := id, request := call.request, dataHandle := call.dataHandle,
      stage := .entering operation.goal, isCancelled := false, inCall := true, onCaller := true,
      ownsMutex := call.ownsMutex, mustClear := false, callbacks := [], asked := [],
      succeeded := [] }
  match operation.invalid with
  | none => x
  | some message =>
    { x with stage := .finished, inCall := false,
             callbacks := [.error (.ofCode .invalidArgument message true)] }

def act (s : ClientState) (x : Execution) : Event → Option (ClientState × Execution)
  | .enter locked =>
    match x.stage with
    | .entering goal => if locked && x.ownsMutex then none else some (enter s x goal locked)
    | _ => none
  | .wake =>
    match x.stage with
    | .waiting goal =>
      if s.init.initInProgress then none else some (tested s { x with ownsMutex := true } goal)
    | _ => none
  | .lookedUp apis inFrame =>
    match x.stage with
    | .lookingUp rest goal =>
      if x.canAnswer inFrame then
        some (if rest = [] then publishApiCallback s (x.answeredIn inFrame) goal apis
          else serviceCallback s (x.answeredIn inFrame) goal rest apis)
      else none
    | _ => none
  | .gotCatalog response inFrame =>
    match x.stage with
    | .asking _ (.catalog p) =>
      if x.canAnswer inFrame then some (initCatalogCallback s (x.answeredIn inFrame) p response)
      else none
    | _ => none
  | .answered response inFrame =>
    match x.stage with
    | .asking _ (.catalog _) => none
    | .asking request goal =>
      if x.canAnswer inFrame then
        let x := x.answeredIn inFrame
        some (answered s { x with succeeded :=
          if response.isOk then x.succeeded ++ [request] else x.succeeded } goal response)
      else none
    | _ => none
  | .clear =>
    if x.mustClear && !x.ownsMutex then
      some ({ s with init.initInProgress := false }, { x with mustClear := false })
    else none
  | .callReturns =>
    if x.canReturn then some (callReturns s x) else none
  | .cancelOperation => if x.inCall then none else some (s, { x with isCancelled := true })

abbrev System : Type := Parties ClientState Execution

/-- A new call begins, or one that is there goes on. -/
def step (s : System) : Action Call Event → Option System :=
  Parties.step (Call.begin s.parties.length) act s

/-- A client before its first call. -/
def initial (lookupUrl : List Char) : System := ⟨⟨⟨lookupUrl, none, false⟩, ⟨[], []⟩, []⟩, []⟩

end OlpEdgeSdk.Model.VersionedLayerClient

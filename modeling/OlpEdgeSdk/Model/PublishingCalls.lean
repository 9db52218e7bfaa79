import OlpEdgeSdk.Base.CallbackRuns
import OlpEdgeSdk.Model.VersionedLayerClient
import OlpEdgeSdk.Model.WriteDocuments

/-!
# What the stream and the index layer client publish

A call of one of the two clients is a chain of requests, each made through `ExecuteOrCancelled`
by the callback of the one before: the lookups of `InitApiClients`, the catalog, and then what
the call is for. It is written here as the program that it is, for the run of any number of calls
beside each other on one client.

A null pointer that is dereferenced ends a call, as does the exception of `at(0)` for an empty
list of services. A client is known by the member that holds it, with its base url: the one a
call has in its hands is not told apart from one that has replaced it. What decides how long a
call waits for the initialisation of another one is left out, the lock of the stream client and
the flag and the mutex of the index client; so are the tokens the index client keeps.

SOURCE: StreamLayerClientImpl.cpp, IndexLayerClientImpl.cpp, ApiClientLookup.cpp
-/

set_option autoImplicit false

namespace OlpEdgeSdk.Model.Publishing

open OlpEdgeSdk.Base OlpEdgeSdk.Model.LayerClientInit OlpEdgeSdk.Model.WriteModel

/-! ## What the calls share -/

/-- The members `apiclient_ingest_`, `apiclient_config_` and so on. -/
inductive ApiClient where
  | ingest
  | config
  | publish
  | blob
  | index
deriving DecidableEq, Repr

/-- SOURCE: StreamLayerClientImpl.cpp:96, 110, 141, 155, IndexLayerClientImpl.cpp:100, 119, 137 -/
def ApiClient.service : ApiClient → Service
  | .ingest => ⟨"ingest", "v1"⟩
  | .config => ⟨"config", "v1"⟩
  | .publish => ⟨"publish", "v2"⟩
  | .blob => ⟨"blob", "v1"⟩
  | .index => ⟨"index", "v1"⟩

/-- The base urls of the clients there are, and the catalog model. -/
structure ClientState where
  baseUrl : ApiClient → Option (List Char)
  catalogModel : VersionedLayerClient.Catalog

/-- A client whose pointers are null. -/
def ClientState.new : ClientState := ⟨fun _ => none, ⟨[], []⟩⟩

def ClientState.setBaseUrl (client : ApiClient) (url : List Char) (s : ClientState) :
    ClientState :=
  { s with baseUrl := fun other => if other = client then some url else s.baseUrl other }

/-- There is a client, and its base url is not empty. -/
def ClientState.hasUrl (s : ClientState) (client : ApiClient) : Bool :=
  (s.baseUrl client).any (· ≠ [])

/-- The requests that the calls make to the services, each with the base url it goes to. -/
inductive SubRequest where
  | lookupApi (baseUrl : List Char) (service : Service)
  | getCatalog (baseUrl : List Char) (billingTag : Option (List Char))
  | ingestData (baseUrl layerId contentType : List Char) (data : List UInt8)
      (traceId billingTag checksum : Option (List Char))
  | ingestSdii (baseUrl layerId : List Char) (sdiiMessageList : List UInt8)
      (traceId billingTag checksum : Option (List Char))
  | initPublication (baseUrl : List Char) (layerIds : List (List Char))
      (billingTag : Option (List Char))
  | putBlob (baseUrl layerId contentType dataHandle : List Char) (data : List UInt8)
      (billingTag : Option (List Char))
  | uploadPartitions (baseUrl : List Char) (partitions : List (List Char × List Char))
      (publicationId layerId : List Char) (billingTag : Option (List Char))
  | submitPublication (baseUrl publicationId : List Char) (billingTag : Option (List Char))
  | insertIndexes (baseUrl : List Char) (index : Index) (layerId : List Char)
      (billingTag : Option (List Char))
  | deleteBlob (baseUrl layerId dataHandle : List Char) (billingTag : Option (List Char))
  | performUpdate (baseUrl : List Char) (request : UpdateIndexRequest)
      (billingTag : Option (List Char))
deriving DecidableEq

/-- The result of a request or a call; the text is an id, where there is one. -/
abbrev Result : Type := Except ApiError (Option (List Char))

/-- The answers: the urls of the services found, the catalog, or an id. -/
def SubRequest.Answer : SubRequest → Type
  | .lookupApi _ _ => Except ApiError (List (List Char))
  | .getCatalog _ _ => Except ApiError VersionedLayerClient.Catalog
  | .ingestData .. | .ingestSdii .. | .initPublication .. | .putBlob .. | .uploadPartitions ..
  | .submitPublication .. | .insertIndexes .. | .deleteBlob .. | .performUpdate .. => Result

/-- How a call ends: with its callback, an exception, or a null pointer. -/
inductive Ending where
  | called (response : Result)
  | thrown
  | nullPointer

abbrev CallProgram : Type := Program SubRequest SubRequest.Answer ClientState Ending

/-- The callback is called. -/
def callback (response : Result) : CallProgram := .reply (.called response)

/-- The `cancel_fn` of every call. -/
def cancelFunction : CallProgram := callback (.error operationCancelled)

/-! ## Initialisation -/

/-- A client is used: its pointer is read. -/
def withClient (client : ApiClient) (next : List Char → CallProgram) : CallProgram :=
  .read fun s =>
    match s.baseUrl client with
    | some url => next url
    | none => .reply .nullPointer

def setBaseUrl (client : ApiClient) (url : List Char) (next : CallProgram) : CallProgram :=
  withClient client fun _ => .write (·.setBaseUrl client url) next

/-- `OlpClientFactory::Create`. -/
def create (client : ApiClient) (next : CallProgram) : CallProgram :=
  .write (·.setBaseUrl client []) next

/-- SOURCE: ApiClientLookup.cpp:50-89 -/
def lookupApi (lookupUrl : List Char) (client : ApiClient)
    (next : Except ApiError (List (List Char)) → CallProgram) : CallProgram :=
  if lookupUrl = [] then next (.error VersionedLayerClient.invalidHrn)
  else setBaseUrl client lookupUrl (.request (.lookupApi lookupUrl client.service) next)

/-- The clients of some services are looked up one after the other, each but the first through
`ExecuteOrCancelled`; the stream client creates each of them when it comes to it.
SOURCE: StreamLayerClientImpl.cpp:92-126, 137-171, IndexLayerClientImpl.cpp:84-142 -/
def lookupApis (lookupUrl : List Char) (creates : Bool) (next : Option ApiError → CallProgram) :
    List ApiClient → CallProgram
  | [] => next none
  | client :: rest =>
    let lookup := lookupApi lookupUrl client fun
      | .error e => next (some e)
      | .ok [] => .reply .thrown
      | .ok (url :: _) => setBaseUrl client url <|
        if rest = [] then next none
        else .executeOrCancelled (lookupApis lookupUrl creates next rest)
          (next (some operationCancelled))
    if creates then create client lookup else lookup

/-- `InitCatalogModel` of both clients.
SOURCE: StreamLayerClientImpl.cpp:174-195, IndexLayerClientImpl.cpp:147-168 -/
def initCatalogModel (billingTag : Option (List Char)) (next : Option ApiError → CallProgram) :
    CallProgram :=
  .read fun s =>
    if s.catalogModel.id ≠ [] then next none
    else withClient .config fun url => .request (.getCatalog url billingTag) fun
      | .error e => next (some e)
      | .ok catalog => .write (fun s => { s with catalogModel := catalog }) (next none)

/-- An error ends a call, or it goes on through `ExecuteOrCancelled`. -/
def unlessError (next : CallProgram) : Option ApiError → CallProgram
  | some e => callback (.error e)
  | none => .executeOrCancelled next cancelFunction

/-- The content type of a layer of the catalog, through `FindContentTypeForLayerId`, or an
error. -/
def withContentType (layerId message : List Char) (next : List Char → CallProgram) :
    CallProgram :=
  .read fun s =>
    let contentType := s.catalogModel.findContentTypeForLayerId layerId
    if contentType = [] then callback (.error (.ofCode .invalidArgument message))
    else .executeOrCancelled (next contentType) cancelFunction

/-! ## The stream layer client -/

namespace StreamLayerClientImpl

/-- SOURCE: PublishSdiiRequest.h:198-206 -/
structure PublishSdiiRequest where
  sdiiMessageList : Option (List UInt8)
  layerId : List Char
  traceId : Option (List Char)
  billingTag : Option (List Char)
  checksum : Option (List Char)
deriving DecidableEq

/-- SOURCE: StreamLayerClientImpl.cpp:54 -/
def kTwentyMib : ℕ := 20971520

variable (lookupUrl : List Char)

/-- SOURCE: StreamLayerClientImpl.cpp:84-127 -/
def initApiClients (next : Option ApiError → CallProgram) : CallProgram :=
  .read fun s =>
    if s.hasUrl .config then next none
    else lookupApis lookupUrl true next [.ingest, .config]

/-- SOURCE: StreamLayerClientImpl.cpp:129-172 -/
def initApiClientsGreaterThanTwentyMib (next : Option ApiError → CallProgram) : CallProgram :=
  .read fun s =>
    if s.hasUrl .blob then next none
    else lookupApis lookupUrl true next [.publish, .blob]

def layerNotFound : List Char :=
  "Unable to find the Layer ID provided in ".toList ++ "the PublishDataRequest in the ".toList ++
    "Catalog specified when creating this ".toList ++ "StreamLayerClient instance.".toList

/-- The message of `PublishDataGreaterThanTwentyMib`. -/
def layerIdNotFound (layerId : List Char) : List Char :=
  "Unable to find the Layer ID (".toList ++ layerId ++ ") ".toList ++
    "provided in the PublishDataRequest in the ".toList ++
    "Catalog specified when creating this ".toList ++ "StreamLayerClient instance.".toList

/-- SOURCE: StreamLayerClientImpl.cpp:445-529 -/
def publishDataLessThanTwentyMib (request : PublishDataRequest) (data : List UInt8) :
    CallProgram :=
  .executeOrCancelled
    (initApiClients lookupUrl (unlessError (initCatalogModel request.billingTag fun
      | some e => callback (.error e)
      | none => withContentType request.layerId layerNotFound fun contentType =>
        withClient .ingest fun url =>
          .request (.ingestData url request.layerId contentType data request.traceId
            request.billingTag request.checksum) callback)))
    cancelFunction

/-- `next` is what the callback does with a success.
SOURCE: StreamLayerClientImpl.cpp:531-601 -/
def initPublishDataGreaterThanTwentyMib (request : PublishDataRequest) (next : CallProgram) :
    CallProgram :=
  .executeOrCancelled
    (initApiClients lookupUrl (unlessError
      (initApiClientsGreaterThanTwentyMib lookupUrl (unlessError
        (initCatalogModel request.billingTag fun
          | some e => callback (.error e)
          | none => next)))))
    cancelFunction

/-- SOURCE: StreamLayerClientImpl.cpp:619-638 -/
def submitPublication (request : PublishDataRequest) (publicationId partitionId : List Char) :
    CallProgram :=
  withClient .publish fun url =>
    .request (.submitPublication url publicationId request.billingTag) fun
      | .error e => callback (.error e)
      | .ok _ => callback (.ok (some partitionId))

/-- SOURCE: StreamLayerClientImpl.cpp:640-662 -/
def uploadPartitions (request : PublishDataRequest)
    (publicationId partitionId dataHandle : List Char) : CallProgram :=
  withClient .publish fun url =>
    .request (.uploadPartitions url [(partitionId, dataHandle)] publicationId request.layerId
      request.billingTag) fun
      | .error e => callback (.error e)
      | .ok _ => .executeOrCancelled (submitPublication request publicationId partitionId)
        cancelFunction

/-- SOURCE: StreamLayerClientImpl.cpp:664-693 -/
def putBlob (request : PublishDataRequest) (data : List UInt8)
    (publicationId partitionId dataHandle contentType : List Char) : CallProgram :=
  withClient .blob fun url =>
    .request (.putBlob url request.layerId contentType dataHandle data request.billingTag) fun
      | .error e => callback (.error e)
      | .ok _ => .executeOrCancelled
        (uploadPartitions request publicationId partitionId dataHandle) cancelFunction

/-- A publication without an id has no error either.
SOURCE: StreamLayerClientImpl.cpp:695-733 -/
def initPublication (request : PublishDataRequest) (data : List UInt8)
    (partitionId dataHandle : List Char) : CallProgram :=
  withClient .publish fun url =>
    .request (.initPublication url [request.layerId] request.billingTag) fun
      | .error e => callback (.error e)
      | .ok none => callback (.error (.ofCode .unknown []))
      | .ok (some publicationId) =>
        withContentType request.layerId (layerIdNotFound request.layerId)
          (putBlob request data publicationId partitionId dataHandle)

/-- SOURCE: StreamLayerClientImpl.cpp:603-754 -/
def publishDataGreaterThanTwentyMib (request : PublishDataRequest) (data : List UInt8)
    (partitionId dataHandle : List Char) : CallProgram :=
  initPublishDataGreaterThanTwentyMib lookupUrl request
    (.executeOrCancelled (initPublication request data partitionId dataHandle) cancelFunction)

/-- The two ids are what `GenerateUuid` returns in the call.
SOURCE: StreamLayerClientImpl.cpp:428-443 -/
def publishData (request : PublishDataRequest) (partitionId dataHandle : List Char) :
    CallProgram :=
  match request.data with
  | none => callback (.error (.ofCode .invalidArgument "Request data null.".toList))
  | some data =>
    if data.length ≤ kTwentyMib then publishDataLessThanTwentyMib lookupUrl request data
    else publishDataGreaterThanTwentyMib lookupUrl request data partitionId dataHandle

/-- SOURCE: StreamLayerClientImpl.cpp:766-830 -/
def publishSdii (request : PublishSdiiRequest) : CallProgram :=
  match request.sdiiMessageList with
  | none =>
    callback (.error (.ofCode .invalidArgument "Request sdii message list null.".toList))
  | some messages =>
    if request.layerId = [] then
      callback (.error (.ofCode .invalidArgument "Request layer id empty.".toList))
    else .executeOrCancelled
      (initApiClients lookupUrl (unlessError (withClient .ingest fun url =>
        .request (.ingestSdii url request.layerId messages request.traceId request.billingTag
          request.checksum) callback)))
      cancelFunction

end StreamLayerClientImpl

/-! ## The index layer client -/

namespace IndexLayerClientImpl

/-- SOURCE: PublishIndexRequest.h:185-189, 193 -/
structure PublishIndexRequest where
  data : Option (List UInt8)
  layerId : List Char
  billingTag : Option (List Char)
  index : Index
deriving DecidableEq

variable (lookupUrl : List Char)

/-- SOURCE: IndexLayerClientImpl.cpp:60-143 -/
def initApiClients (next : Option ApiError → CallProgram) : CallProgram :=
  .read fun s =>
    if s.hasUrl .index then next none
    else create .blob (create .config (create .index
      (lookupApis lookupUrl false next [.config, .blob, .index])))

def layerIdNotFound (layerId : List Char) : List Char :=
  "Unable to find the Layer ID (".toList ++ layerId ++ ") ".toList ++
    "provided in the PublishIndexRequest in the ".toList ++
    "Catalog specified when creating ".toList ++ "this IndexLayerClient instance.".toList

/-- SOURCE: IndexLayerClientImpl.cpp:220-238 -/
def insertIndexes (request : PublishIndexRequest) (dataHandle : List Char) : CallProgram :=
  withClient .index fun url =>
    .request (.insertIndexes url { request.index with id := dataHandle } request.layerId
      request.billingTag) fun
      | .error e => callback (.error e)
      | .ok _ => callback (.ok (some dataHandle))

/-- SOURCE: IndexLayerClientImpl.cpp:240-255 -/
def putBlob (request : PublishIndexRequest) (data : List UInt8)
    (dataHandle contentType : List Char) : CallProgram :=
  withClient .blob fun url =>
    .request (.putBlob url request.layerId contentType dataHandle data request.billingTag) fun
      | .error e => callback (.error e)
      | .ok _ => .executeOrCancelled (insertIndexes request dataHandle) cancelFunction

/-- `dataHandle` is what `GenerateUuid` returns in the call.
SOURCE: IndexLayerClientImpl.cpp:195-308 -/
def publishIndex (request : PublishIndexRequest) (dataHandle : List Char) : CallProgram :=
  match request.data with
  | none => callback (.error (.ofCode .invalidArgument "Request data empty.".toList))
  | some data =>
    if request.layerId = [] then
      callback (.error (.ofCode .invalidArgument "Request layer Id empty.".toList))
    else .executeOrCancelled
      (initApiClients lookupUrl (unlessError (initCatalogModel none fun
        | some e => callback (.error e)
        | none => withContentType request.layerId (layerIdNotFound request.layerId)
          (putBlob request data dataHandle))))
      cancelFunction

/-- SOURCE: IndexLayerClientImpl.cpp:321-379 -/
def deleteIndexData (layerId indexId : List Char) : CallProgram :=
  if layerId = [] ∨ indexId = [] then
    callback (.error (.ofCode .invalidArgument
      "Request layer ID or Index Id is not defined.".toList))
  else .executeOrCancelled
    (initApiClients lookupUrl (unlessError (withClient .blob fun url =>
      .request (.deleteBlob url layerId indexId none) fun
        | .error e => callback (.error e)
        | .ok _ => callback (.ok none))))
    cancelFunction

/-- SOURCE: IndexLayerClientImpl.cpp:391-437 -/
def updateIndex (request : UpdateIndexRequest) : CallProgram :=
  .executeOrCancelled
    (initApiClients lookupUrl (unlessError (withClient .index fun url =>
      .request (.performUpdate url request none) fun
        | .error e => callback (.error e)
        | .ok _ => callback (.ok none))))
    cancelFunction

end IndexLayerClientImpl

/-! ## The calls of a client -/

inductive StreamCall where
  | publishData (request : PublishDataRequest) (partitionId dataHandle : List Char)
  | publishSdii (request : StreamLayerClientImpl.PublishSdiiRequest)

inductive IndexCall where
  | publishIndex (request : IndexLayerClientImpl.PublishIndexRequest) (dataHandle : List Char)
  | deleteIndexData (layerId indexId : List Char)
  | updateIndex (request : UpdateIndexRequest)

/-- The two clients. -/
inductive Client where
  | stream
  | index
deriving DecidableEq, Repr

abbrev Client.Call : Client → Type
  | .stream => StreamCall
  | .index => IndexCall

/-- What a call does. -/
def Client.program (lookupUrl : List Char) : (client : Client) → client.Call → CallProgram
  | .stream, .publishData request partitionId dataHandle =>
    StreamLayerClientImpl.publishData lookupUrl request partitionId dataHandle
  | .stream, .publishSdii request => StreamLayerClientImpl.publishSdii lookupUrl request
  | .index, .publishIndex request dataHandle =>
    IndexLayerClientImpl.publishIndex lookupUrl request dataHandle
  | .index, .deleteIndexData layerId indexId =>
    IndexLayerClientImpl.deleteIndexData lookupUrl layerId indexId
  | .index, .updateIndex request => IndexLayerClientImpl.updateIndex lookupUrl request

/-- A client and the calls made so far. -/
abbrev Client.System (client : Client) : Type :=
  Processes SubRequest SubRequest.Answer ClientState Ending client.Call

abbrev Client.Event (client : Client) : Type :=
  Action client.Call (Process.Event SubRequest SubRequest.Answer)

/-- A call begins, once it has got through the initialisation of others, or one goes on. -/
def Client.step (client : Client) (lookupUrl : List Char) :
    client.System → client.Event → Option client.System :=
  Processes.step (client.program lookupUrl)

def Client.start (client : Client) : client.System := ⟨ClientState.new, []⟩

end OlpEdgeSdk.Model.Publishing

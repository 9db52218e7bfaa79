import OlpEdgeSdk.Base.CallbackProgram
import OlpEdgeSdk.Model.CacheRepositories

/-!
# The repositories

What `ApiRepository`, `CatalogRepository`, `PartitionsRepository` and `DataRepository` do for
one call, as programs in callback style: the requests they start at other repositories and at
the network, what they read from the cache and write to it, and what their callback gets.
A `reply` calls the callback that `MultiRequestContext` passes to `executeFn`; a
`replyCaller` calls the callback the caller passed, where the source captures that one.

The client of a service stands for its base URL. Logging is left out.

SOURCE: ApiRepository.cpp, CatalogRepository.cpp, PartitionsRepository.cpp, DataRepository.cpp
-/

set_option autoImplicit false

namespace OlpEdgeSdk.Model

open OlpEdgeSdk.Base

/-! ## Responses -/

/-- SOURCE: ErrorCode.h:24-84 -/
inductive ErrorCode where
  | unknown
  | cancelled
  | invalidArgument
  | requestTimeout
  | internalFailure
  | serviceUnavailable
  | accessDenied
  | badRequest
  | preconditionFailed
  | notFound
  | slowDown
  | networkConnection
deriving DecidableEq, Repr

/-- SOURCE: ApiError.h:75-82 -/
structure ApiError where
  errorCode : ErrorCode
  httpStatusCode : ℤ
  message : List Char
  isRetryable : Bool
deriving DecidableEq, Repr

/-- An error that does not come from the network. Its status is `Network::Cancelled` or
`Network::UnknownError`.
SOURCE: ApiError.h:37-45 -/
def ApiError.ofCode (errorCode : ErrorCode) (message : List Char) (isRetryable : Bool := false) :
    ApiError :=
  ⟨errorCode, if errorCode = .cancelled then -5 else -8, message, isRetryable⟩

def operationCancelled : ApiError := .ofCode .cancelled "Operation cancelled.".toList true

def layerDoesNotExist : ApiError := .ofCode .invalidArgument "Layer specified doesn't exist.".toList

abbrev Response (α : Type) : Type := Except ApiError α

/-- A shared byte vector, or a null pointer. -/
abbrev Data : Type := Option (List Char)

/-! ## Requests to the network -/

/-- The services that hold data: `BlobApi` and `VolatileBlobApi`. -/
inductive BlobService where
  | blob
  | volatileBlob
deriving DecidableEq, Repr

/-- The name a service is looked up with. -/
def BlobService.name : BlobService → List Char
  | .blob => "blob".toList
  | .volatileBlob => "volatile-blob".toList

/-- A request to a service; `url` is the base URL of its client.
SOURCE: ApiClientLookup.cpp, ConfigApi.cpp, MetadataApi.cpp, QueryApi.cpp, BlobApi.cpp,
VolatileBlobApi.cpp -/
inductive NetworkCall where
  | lookupApiClient (service serviceVersion : List Char)
  | getCatalog (url : List Char) (billingTag : Option (List Char))
  | getLatestCatalogVersion (url : List Char) (startVersion : ℤ) (billingTag : Option (List Char))
  | getLayerVersions (url : List Char) (version : ℤ) (billingTag : Option (List Char))
  | getPartitions (url layerId : List Char) (version : Option ℤ) (billingTag : Option (List Char))
  | getPartitionsbyId (url layerId : List Char) (partitions : List (List Char))
      (version : Option ℤ) (billingTag : Option (List Char))
  | getBlob (service : BlobService) (url layerId dataHandle : List Char)
      (billingTag : Option (List Char))
deriving DecidableEq, Repr

/-- What the network answers a request with. -/
@[reducible] def NetworkCall.Answer : NetworkCall → Type
  | .lookupApiClient _ _ => Response (List Char)
  | .getCatalog _ _ => Response Catalog
  | .getLatestCatalogVersion _ _ _ => Response ℤ
  | .getLayerVersions _ _ _ => Response (List LayerVersion)
  | .getPartitions _ _ _ _ => Response (List Partition)
  | .getPartitionsbyId _ _ _ _ _ => Response (List Partition)
  | .getBlob _ _ _ _ _ => Response (List Char)

/-! ## Shared patterns -/

section Patterns

variable {Op : Type} {Answer : Op → Type} {Reply α : Type}

/-- The check of the cache with which a request begins: `OnlineOnly` skips it, and `CacheOnly`
ends with it. -/
def checkCache (fetchOption : FetchOptions) (get : Store → Option α) (notFound : List Char)
    (callback : Response α → Program Op Answer Store Reply)
    (online : Program Op Answer Store Reply) : Program Op Answer Store Reply :=
  if fetchOption ≠ .onlineOnly then
    .read fun s =>
      match get s with
      | some cached => .schedule (callback (.ok cached))
      | none =>
        if fetchOption = .cacheOnly then
          .schedule (callback (.error (.ofCode .notFound notFound)))
        else online
  else online

/-- The callback of a network request whose answer is cached: a success is put, and a 403
clears. -/
def cacheResponseCallback (put : α → Store → Store) (clear : Store → Store)
    (callback : Response α → Program Op Answer Store Reply) (response : Response α) :
    Program Op Answer Store Reply :=
  match response with
  | .ok result => .write (put result) (callback response)
  | .error error =>
    if error.httpStatusCode = 403 then .write clear (callback response) else callback response

end Patterns

/-! ## Service URLs -/

namespace ApiRepository

/-- SOURCE: ApiRepository.cpp:52-100 -/
def getApiClient (hrn service serviceVersion : List Char) :
    Program NetworkCall NetworkCall.Answer Store (Response (List Char)) :=
  .read fun s =>
    match ApiCacheRepository.get hrn service serviceVersion s with
    | some url => .schedule (.reply (.ok url))
    | none => .request (.lookupApiClient service serviceVersion) fun response =>
      match response with
      | .ok url =>
        .write (ApiCacheRepository.put hrn service serviceVersion url) (.reply response)
      | .error _ => .reply response

end ApiRepository

/-- The version all services are looked up with. -/
def serviceVersion : List Char := "v1".toList

/-! ## Catalogs -/

namespace CatalogRepository

/-- What the functions of this repository ask for. -/
inductive Op where
  | getApiClient (service serviceVersion : List Char)
  | network (call : NetworkCall)
deriving DecidableEq, Repr

@[reducible] def Op.Answer : Op → Type
  | .getApiClient _ _ => Response (List Char)
  | .network call => call.Answer

/-- SOURCE: CatalogRepository.cpp:57-156 -/
def getCatalog (hrn : List Char) (r : CatalogRequest) :
    Program Op Op.Answer Store (Response Catalog) :=
  let query := .request (.getApiClient "config".toList serviceVersion) fun response =>
    match response with
    | .error error => .reply (.error error)
    | .ok url =>
      .executeOrCancelled
        (.request (.network (.getCatalog url r.billingTag))
          (cacheResponseCallback (CatalogCacheRepository.put hrn)
            (CatalogCacheRepository.clear hrn) .reply))
        (.reply (.error operationCancelled))
  .executeOrCancelled
    (checkCache r.fetchOption (CatalogCacheRepository.get hrn)
      "Cache only resource not found in cache (catalog).".toList .reply query)
    (.reply (.error operationCancelled))

/-- The cache is only read for `CacheOnly`.
SOURCE: CatalogRepository.cpp:158-246 -/
def getLatestCatalogVersion (hrn : List Char) (r : CatalogVersionRequest) :
    Program Op Op.Answer Store (Response ℤ) :=
  let query := .request (.getApiClient "metadata".toList serviceVersion) fun response =>
    match response with
    | .error error => .reply (.error error)
    | .ok url =>
      .executeOrCancelled
        (.request (.network (.getLatestCatalogVersion url r.startVersion r.billingTag))
          (cacheResponseCallback (CatalogCacheRepository.putVersion hrn)
            (CatalogCacheRepository.clear hrn) .reply))
        (.reply (.error operationCancelled))
  .executeOrCancelled
    (if r.fetchOption = .cacheOnly then
      .read fun s =>
        match CatalogCacheRepository.getVersion hrn s with
        | some version => .schedule (.reply (.ok version))
        | none => .schedule (.reply (.error (.ofCode .notFound
            "Cache only resource not found in cache (catalog version).".toList)))
    else query)
    (.reply (.error operationCancelled))

end CatalogRepository

/-! ## Partitions -/

namespace PartitionsRepository

/-- What the functions of this repository ask for. -/
inductive Op where
  | getCatalog (r : CatalogRequest)
  | getLatestCatalogVersion (r : CatalogVersionRequest)
  | getApiClient (service serviceVersion : List Char)
  | network (call : NetworkCall)
deriving DecidableEq, Repr

@[reducible] def Op.Answer : Op → Type
  | .getCatalog _ => Response Catalog
  | .getLatestCatalogVersion _ => Response ℤ
  | .getApiClient _ _ => Response (List Char)
  | .network call => call.Answer

/-- What a call of this repository does. -/
abbrev PartitionsProgram : Type := Program Op Op.Answer Store (Response (List Partition))

/-- The `cancel_callback` of `GetPartitions` and `GetPartitionsById` captures the callback of
the caller, not the one that is passed to `executeFn`.
SOURCE: PartitionsRepository.cpp:241-244, 379-382 -/
def cancelCallback : PartitionsProgram := .replyCaller (.error operationCancelled)

/-- The version of the layer of a request among the versions of all layers.
SOURCE: PartitionsRepository.cpp:86-101 -/
def layerVersionsCallback (r : PartitionsRequest) (callback : Response ℤ → PartitionsProgram)
    (layerVersions : List LayerVersion) : PartitionsProgram :=
  match layerVersions.find? fun layer => layer.layer = r.layerId with
  | some layer => callback (.ok layer.version)
  | none => callback (.error layerDoesNotExist)

/-- The layer version of a catalog version. The cached layer versions are used for every fetch
option.
SOURCE: PartitionsRepository.cpp:79-137 -/
def getLayerVersion (hrn url : List Char) (r : PartitionsRequest) (version : ℤ)
    (callback : Response ℤ → PartitionsProgram) : PartitionsProgram :=
  .executeOrCancelled
    (.read fun s =>
      match PartitionsCacheRepository.getLayerVersions hrn version s with
      | some cached => .schedule (layerVersionsCallback r callback cached)
      | none => .request (.network (.getLayerVersions url version r.billingTag)) fun response =>
        match response with
        | .error error => callback (.error error)
        | .ok layerVersions =>
          .write (PartitionsCacheRepository.putLayerVersions hrn version layerVersions)
            (layerVersionsCallback r callback layerVersions))
    (callback (.error operationCancelled))

/-- The layer is looked up in the catalog and the version of the request is settled: none for
a layer that is not versioned, else the one asked for or the latest one.
SOURCE: PartitionsRepository.cpp:139-212 -/
def appendPartitionsRequest (r : PartitionsRequest)
    (fetchPartitions : PartitionsRequest → Option ℤ → PartitionsProgram) : PartitionsProgram :=
  .executeOrCancelled
    (.request (.getCatalog ⟨r.billingTag, r.fetchOption⟩) fun response =>
      match response with
      | .error error => .reply (.error error)
      | .ok catalog =>
        match catalog.layers.find? fun layer => layer.id = r.layerId with
        | none => .reply (.error layerDoesNotExist)
        | some layer =>
          let expiry := layer.ttl.map fun ttl => ttl.tdiv 1000
          if layer.layerType ≠ "versioned".toList then
            fetchPartitions { r with version := none } expiry
          else if r.version.isSome then fetchPartitions r expiry
          else
            .executeOrCancelled
              (.request (.getLatestCatalogVersion ⟨-1, r.billingTag, r.fetchOption⟩) fun response =>
                match response with
                | .error error => .reply (.error error)
                | .ok version => fetchPartitions { r with version := some version } expiry)
              cancelCallback)
    cancelCallback

/-- The partitions of a layer at a layer version, from the network.
SOURCE: PartitionsRepository.cpp:278-293, 305-323 -/
def getPartitionsInternal (hrn url : List Char) (r : PartitionsRequest)
    (expiry version : Option ℤ) : PartitionsProgram :=
  .executeOrCancelled
    (.request (.network (.getPartitions url r.layerId version r.billingTag))
      (cacheResponseCallback
        (fun result => PartitionsCacheRepository.put hrn r result expiry true)
        (PartitionsCacheRepository.clear hrn r.layerId) .reply))
    cancelCallback

/-- The callback of the layer version.
SOURCE: PartitionsRepository.cpp:330-344 -/
def layerVersionCallback (hrn url : List Char) (r : PartitionsRequest) (expiry : Option ℤ)
    (layerVersion : Response ℤ) : PartitionsProgram :=
  match layerVersion with
  | .error error =>
    if error.httpStatusCode = 403 then
      .write (PartitionsCacheRepository.clear hrn r.layerId) (.reply (.error error))
    else .reply (.error error)
  | .ok layerVersion => getPartitionsInternal hrn url r expiry (some layerVersion)

/-- The partitions of a layer, for a request with its version settled.
SOURCE: PartitionsRepository.cpp:250-356 -/
def fetchPartitions (hrn : List Char) (fetchOption : FetchOptions) (r : PartitionsRequest)
    (expiry : Option ℤ) : PartitionsProgram :=
  .executeOrCancelled
    (checkCache fetchOption (PartitionsCacheRepository.get hrn r)
      "Cache only resource not found in cache (partitions).".toList .reply
      (.request (.getApiClient "metadata".toList serviceVersion) fun response =>
        match response with
        | .error error => .reply (.error error)
        | .ok url =>
          match r.version with
          | some version =>
            getLayerVersion hrn url r version (layerVersionCallback hrn url r expiry)
          | none => getPartitionsInternal hrn url r expiry none))
    cancelCallback

/-- SOURCE: PartitionsRepository.cpp:232-365 -/
def getPartitions (hrn : List Char) (r : PartitionsRequest) : PartitionsProgram :=
  appendPartitionsRequest r (fetchPartitions hrn r.fetchOption)

/-- The cached ones of some partitions, if all of them are cached.
SOURCE: PartitionsRepository.cpp:393-397 -/
def allCached (hrn : List Char) (r : PartitionsRequest) (partitions : List (List Char))
    (s : Store) : Option (List Partition) :=
  let cachedPartitions := PartitionsCacheRepository.getByIds hrn r partitions s
  if cachedPartitions.length = partitions.length then some cachedPartitions else none

/-- Some partitions of a layer, for a request with its version settled.
SOURCE: PartitionsRepository.cpp:387-461 -/
def fetchPartitionsById (hrn : List Char) (fetchOption : FetchOptions)
    (partitions : List (List Char)) (r : PartitionsRequest) (expiry : Option ℤ) :
    PartitionsProgram :=
  .executeOrCancelled
    (checkCache fetchOption (allCached hrn r partitions)
      "Cache only resource not found in cache (partition).".toList .reply
      (.request (.getApiClient "query".toList serviceVersion) fun response =>
        match response with
        | .error error => .reply (.error error)
        | .ok url =>
          .executeOrCancelled
            (.request
              (.network (.getPartitionsbyId url r.layerId partitions r.version r.billingTag))
              (cacheResponseCallback
                (fun result => PartitionsCacheRepository.put hrn r result expiry false)
                (PartitionsCacheRepository.clearPartitions hrn r partitions) .reply))
            cancelCallback))
    cancelCallback

/-- SOURCE: PartitionsRepository.cpp:367-471 -/
def getPartitionsById (hrn : List Char) (r : PartitionsRequest) (partitions : List (List Char)) :
    PartitionsProgram :=
  appendPartitionsRequest r (fetchPartitionsById hrn r.fetchOption partitions)

end PartitionsRepository

/-! ## Data -/

namespace DataRepository

/-- What the functions of this repository ask for. -/
inductive Op where
  | getCatalog (r : CatalogRequest)
  | getPartitionsById (r : PartitionsRequest) (partitions : List (List Char))
  | getApiClient (service serviceVersion : List Char)
  | network (call : NetworkCall)
deriving DecidableEq, Repr

@[reducible] def Op.Answer : Op → Type
  | .getCatalog _ => Response Catalog
  | .getPartitionsById _ _ => Response (List Partition)
  | .getApiClient _ _ => Response (List Char)
  | .network call => call.Answer

/-- What a call of this repository does. -/
abbrev DataProgram : Type := Program Op Op.Answer Store (Response Data)

/-- The `cancel_callback` of `GetData` captures the callback of the caller.
SOURCE: DataRepository.cpp:201-204 -/
def cancelCallback : DataProgram := .replyCaller (.error operationCancelled)

/-- The service that holds the data of a layer.
SOURCE: DataRepository.cpp:78-101 -/
def blobService (layerType : List Char) : Option BlobService :=
  if layerType = "versioned".toList then some .blob
  else if layerType = "volatile".toList then some .volatileBlob
  else none

/-- The data of a data handle. Its `cancel_callback` is made of the callback it was given.
SOURCE: DataRepository.cpp:47-152 -/
def getDataInternal (hrn layerType : List Char) (r : DataRequest)
    (callback : Response Data → DataProgram) : DataProgram :=
  let dataHandle := r.dataHandle.getD []
  let cancelCallback := callback (.error operationCancelled)
  match blobService layerType with
  | none => callback (.error (.ofCode .serviceUnavailable
      "Stream layers are not supported yet.".toList))
  | some service =>
    .executeOrCancelled
      (checkCache r.fetchOption
        (fun s => (DataCacheRepository.get hrn r.layerId dataHandle s).map some)
        "Cache only resource not found in cache (data).".toList callback
        (.request (.getApiClient service.name serviceVersion) fun response =>
          match response with
          | .error error => callback (.error error)
          | .ok url =>
            .executeOrCancelled
              (.request (.network (.getBlob service url r.layerId dataHandle r.billingTag))
                (cacheResponseCallback
                  (fun data => DataCacheRepository.put hrn data r.layerId dataHandle)
                  (DataCacheRepository.clear hrn r.layerId dataHandle)
                  fun response => callback (response.map some)))
              cancelCallback))
      cancelCallback

/-- SOURCE: DataRepository.cpp:175-177 -/
def isInlineData (dataHandle : List Char) : Bool := "data:".toList.isPrefixOf dataHandle

/-- What becomes of the data of a partition: a 403 clears what is cached of the partition.
SOURCE: DataRepository.cpp:268-287 -/
def verifyResponseCallback (hrn : List Char) (r : DataRequest) (partitionId : List Char)
    (response : Response Data) : DataProgram :=
  match response with
  | .error error =>
    if error.httpStatusCode = 403 then
      .write (PartitionsCacheRepository.clearPartitions hrn
        { layerId := r.layerId, version := r.version, billingTag := r.billingTag } [partitionId])
        (.reply response)
    else .reply response
  | .ok _ => .reply response

/-- What becomes of the partition: its data handle holds the data, or names it; without a
partition there is no data.
SOURCE: DataRepository.cpp:242-302 -/
def getPartitionsCallback (hrn layerType : List Char) (r : DataRequest) (partitionId : List Char)
    (response : Response (List Partition)) : DataProgram :=
  match response with
  | .error error => .reply (.error error)
  | .ok [partition] =>
    if isInlineData partition.dataHandle then .reply (.ok (some partition.dataHandle))
    else
      let appended := { r with dataHandle := some partition.dataHandle }
      getDataInternal hrn layerType appended (verifyResponseCallback hrn appended partitionId)
  | .ok _ => .reply (.ok none)

/-- A request that names no data is answered at once, with the callback of the caller.
SOURCE: DataRepository.cpp:184-190 -/
def rejected (r : DataRequest) : Option ApiError :=
  if r.dataHandle = none ∧ r.partitionId = none then
    some (.ofCode .invalidArgument "A data handle or a partition id must be defined.".toList)
  else none

/-- What `GetData` does for a request that is not rejected.
SOURCE: DataRepository.cpp:191-330 -/
def getData (hrn : List Char) (r : DataRequest) : DataProgram :=
  .executeOrCancelled
    (.request (.getCatalog ⟨r.billingTag, r.fetchOption⟩) fun response =>
      match response with
      | .error error => .reply (.error error)
      | .ok catalog =>
        match catalog.layers.find? fun layer => layer.id = r.layerId with
        | none => .reply (.error layerDoesNotExist)
        | some layer =>
          match r.dataHandle with
          | some _ => getDataInternal hrn layer.layerType r .reply
          | none =>
            let partitionId := r.partitionId.getD []
            .executeOrCancelled
              (.request (.getPartitionsById
                  ⟨r.layerId, r.version, r.billingTag, r.fetchOption⟩ [partitionId])
                (getPartitionsCallback hrn layer.layerType r partitionId))
              cancelCallback)
    cancelCallback

end DataRepository

end OlpEdgeSdk.Model

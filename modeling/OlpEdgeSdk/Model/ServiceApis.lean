import Mathlib.Data.List.Lex
import OlpEdgeSdk.Base.Decimal
import OlpEdgeSdk.Model.OlpClient
import OlpEdgeSdk.Model.Repositories

/-!
# The functions of the services

Each function of the generated service classes hands `CallApi` a path, a method, parameters of
the query, headers and a body, and makes a result or an error of what comes back. The texts are
put together as they are. The read and the write library have most of the classes twice; those
of `ConfigApi`, `MetadataApi`, `QueryApi`, `PlatformApi` and `ResourcesApi` are the same in both.

A body is a text: a document that has been serialized, or data. What is made of a result is left
out, and so are the form parameters, which nobody reads.

SOURCE: olp-cpp-sdk-dataservice-read/src/generated/api
SOURCE: olp-cpp-sdk-dataservice-write/src/generated
-/

set_option autoImplicit false

namespace OlpEdgeSdk.Model

open OlpEdgeSdk.Base

/-! ## Errors of the network -/

namespace HttpStatusCode

/-- SOURCE: HttpStatusCode.h:110-128 -/
def isRetryableHttpStatusCode (httpCode : ℤ) : Bool :=
  if httpCode < 0 then false
  else httpCode ∈ [500, 503, 429, 509, 408, 419, 440, 504, 598, 599]

/-- SOURCE: HttpStatusCode.h:131-184, Network.h:71-80 -/
def getErrorForHttpStatusCode (httpCode : ℤ) : ErrorCode :=
  if httpCode < 0 then
    if httpCode = -4 ∨ httpCode = -1 then .networkConnection
    else if httpCode = -7 then .requestTimeout
    else if httpCode = -5 then .cancelled
    else if httpCode = -2 ∨ httpCode = -6 then .accessDenied
    else if httpCode = -3 then .serviceUnavailable
    else .unknown
  else if httpCode = 400 then .badRequest
  else if httpCode = 401 ∨ httpCode = 403 then .accessDenied
  else if httpCode = 404 then .notFound
  else if httpCode = 412 then .preconditionFailed
  else if httpCode = 429 ∨ httpCode = 509 then .slowDown
  else if httpCode = 500 then .internalFailure
  else if httpCode = 503 then .serviceUnavailable
  else if httpCode ∈ [408, 419, 440, 504, 598, 599] then .requestTimeout
  else .unknown

end HttpStatusCode

/-- An error that comes from the network.
SOURCE: ApiError.h:48-54 -/
def ApiError.ofStatus (httpStatusCode : ℤ) (message : List Char) : ApiError :=
  ⟨HttpStatusCode.getErrorForHttpStatusCode httpStatusCode, httpStatusCode, message,
    HttpStatusCode.isRetryableHttpStatusCode httpStatusCode⟩

namespace ServiceApis

/-! ## Calls -/

/-- `std::multimap::insert`: behind the keys that are not greater. -/
def insertParam (params : List (List Char × List Char)) (key value : List Char) :
    List (List Char × List Char) :=
  params.takeWhile (fun p => p.1 ≤ key) ++ (key, value) :: params.dropWhile (fun p => p.1 ≤ key)

/-- A parameter that is inserted if it has a value. -/
def insertSome (params : List (List Char × List Char)) (key : List Char) :
    Option (List Char) → List (List Char × List Char)
  | some value => insertParam params key value
  | none => params

/-- There is no last element of an empty list to write.
SOURCE: QueryApi.cpp:37-49, MetadataApi.cpp:37-49 -/
def concatStringArray (strings : List (List Char)) (delimiter : List Char) : Option (List Char) :=
  match strings.getLast? with
  | none => none
  | some last => some ((strings.dropLast.flatMap fun s => s ++ delimiter) ++ last)

/-- The additional fields, if any are given. -/
def insertAdditionalFields (params : List (List Char × List Char)) :
    Option (List (List Char)) → Option (List (List Char × List Char))
  | some additionalFields => do
    let value ← concatStringArray additionalFields [',']
    return insertParam params "additionalFields".toList value
  | none => some params

/-- What is handed to `CallApi`. -/
structure ApiCall where
  path : List Char
  method : List Char
  queryParams : List (List Char × List Char)
  headerParams : List (List Char × List Char)
  postBody : Option (List Char)
  contentType : List Char
deriving DecidableEq

def acceptJson : List (List Char × List Char) :=
  insertParam [] "Accept".toList "application/json".toList

def insertBillingTag (params : List (List Char × List Char)) (billingTag : Option (List Char)) :
    List (List Char × List Char) :=
  insertSome params "billingTag".toList billingTag

def insertVersion (params : List (List Char × List Char)) (version : Option ℤ) :
    List (List Char × List Char) :=
  insertSome params "version".toList (version.map decimal)

/-- A request without a body. -/
def bodiless (method path : List Char) (queryParams headerParams : List (List Char × List Char)) :
    ApiCall :=
  ⟨path, method, queryParams, headerParams, none, []⟩

/-- SOURCE: read ConfigApi.cpp:36-61, write ConfigApi.cpp:52-79 -/
def ConfigApi.getCatalog (catalogHrn : List Char) (billingTag : Option (List Char)) : ApiCall :=
  bodiless "GET".toList ("/catalogs/".toList ++ catalogHrn) (insertBillingTag [] billingTag)
    acceptJson

/-- SOURCE: PlatformApi.cpp:34-60 -/
def PlatformApi.getApis (service serviceVersion : List Char) : ApiCall :=
  bodiless "GET".toList ("/platform/apis/".toList ++ service ++ ['/'] ++ serviceVersion) []
    acceptJson

/-- SOURCE: ResourcesApi.cpp:33-61 -/
def ResourcesApi.getApis (hrn service serviceVersion : List Char) : ApiCall :=
  bodiless "GET".toList ("/resources/".toList ++ hrn ++ "/apis/".toList ++ service ++ ['/'] ++
    serviceVersion) [] acceptJson

/-- SOURCE: MetadataApi.cpp:58-87 -/
def MetadataApi.getLayerVersions (version : ℤ) (billingTag : Option (List Char)) : ApiCall :=
  bodiless "GET".toList "/layerVersions".toList
    (insertBillingTag (insertParam [] "version".toList (decimal version)) billingTag) acceptJson

/-- SOURCE: MetadataApi.cpp:89-129 -/
def MetadataApi.getPartitions (layerId : List Char) (version : Option ℤ)
    (additionalFields : Option (List (List Char))) (range billingTag : Option (List Char)) :
    Option ApiCall := do
  let queryParams ← insertAdditionalFields [] additionalFields
  return bodiless "GET".toList ("/layers/".toList ++ layerId ++ "/partitions".toList)
    (insertVersion (insertBillingTag queryParams billingTag) version)
    (insertSome acceptJson "Range".toList range)

/-- SOURCE: MetadataApi.cpp:131-161 -/
def MetadataApi.getLatestCatalogVersion (startVersion : ℤ) (billingTag : Option (List Char)) :
    ApiCall :=
  bodiless "GET".toList "/versions/latest".toList
    (insertBillingTag (insertParam [] "startVersion".toList (decimal startVersion)) billingTag)
    acceptJson

/-- SOURCE: read QueryApi.cpp:61-100, write QueryApi.cpp:54-94 -/
def QueryApi.getPartitionsbyId (layerId : List Char) (partition : List (List Char))
    (version : Option ℤ) (additionalFields : Option (List (List Char)))
    (billingTag : Option (List Char)) : Option ApiCall := do
  let partitions ← concatStringArray partition "&partition=".toList
  let queryParams ←
    insertAdditionalFields (insertParam [] "partition".toList partitions) additionalFields
  return bodiless "GET".toList ("/layers/".toList ++ layerId ++ "/partitions".toList)
    (insertVersion (insertBillingTag queryParams billingTag) version) acceptJson

/-- SOURCE: QueryApi.cpp:102-141 -/
def QueryApi.quadTreeIndex (layerId : List Char) (version : ℤ) (quadKey : List Char) (depth : ℤ)
    (additionalFields : Option (List (List Char))) (billingTag : Option (List Char)) :
    Option ApiCall := do
  let queryParams ← insertAdditionalFields [] additionalFields
  return bodiless "GET".toList
    ("/layers/".toList ++ layerId ++ "/versions/".toList ++ decimal version ++
      "/quadkeys/".toList ++ quadKey ++ "/depths/".toList ++ decimal depth)
    (insertBillingTag queryParams billingTag) acceptJson

/-- The path of the data of a handle. -/
def dataPath (layerId dataHandle : List Char) : List Char :=
  "/layers/".toList ++ layerId ++ "/data/".toList ++ dataHandle

/-- SOURCE: read BlobApi.cpp:32-67 -/
def BlobApi.getBlob (layerId dataHandle : List Char) (billingTag range : Option (List Char)) :
    ApiCall :=
  bodiless "GET".toList (dataPath layerId dataHandle) (insertBillingTag [] billingTag)
    (insertSome acceptJson "Range".toList range)

/-- SOURCE: VolatileBlobApi.cpp:32-63 -/
def VolatileBlobApi.getVolatileBlob (layerId dataHandle : List Char)
    (billingTag : Option (List Char)) : ApiCall :=
  bodiless "GET".toList (dataPath layerId dataHandle) (insertBillingTag [] billingTag) acceptJson

/-- SOURCE: write BlobApi.cpp:46-77 -/
def BlobApi.putBlob (layerId contentType dataHandle : List Char) (data : Option (List Char))
    (billingTag : Option (List Char)) : ApiCall :=
  ⟨dataPath layerId dataHandle, "PUT".toList, insertBillingTag [] billingTag, acceptJson, data,
    contentType⟩

/-- SOURCE: write BlobApi.cpp:79-107 -/
def BlobApi.deleteBlob (layerId dataHandle : List Char) (billingTag : Option (List Char)) :
    ApiCall :=
  bodiless "DELETE".toList (dataPath layerId dataHandle) (insertBillingTag [] billingTag)
    acceptJson

/-- SOURCE: write BlobApi.cpp:109-138 -/
def BlobApi.checkBlobExists (layerId dataHandle : List Char) (billingTag : Option (List Char)) :
    ApiCall :=
  bodiless "HEAD".toList (dataPath layerId dataHandle) (insertBillingTag [] billingTag) acceptJson

/-- SOURCE: IngestApi.cpp:75-81, 132-138 -/
def ingestHeaders (traceId checksum : Option (List Char)) : List (List Char × List Char) :=
  insertSome (insertSome acceptJson "X-HERE-TraceId".toList traceId) "X-HERE-Checksum".toList
    checksum

/-- SOURCE: IngestApi.cpp:64-104 -/
def IngestApi.ingestData (layerId contentType : List Char) (data : Option (List Char))
    (traceId billingTag checksum : Option (List Char)) : ApiCall :=
  ⟨"/layers/".toList ++ layerId, "POST".toList, insertBillingTag [] billingTag,
    ingestHeaders traceId checksum, data, contentType⟩

/-- SOURCE: IngestApi.cpp:121-164 -/
def IngestApi.ingestSdii (layerId : List Char) (sdiiMessageList : Option (List Char))
    (traceId billingTag checksum : Option (List Char)) : ApiCall :=
  ⟨"/layers/".toList ++ layerId ++ "/sdiiMessageList".toList, "POST".toList,
    insertBillingTag [] billingTag, ingestHeaders traceId checksum, sdiiMessageList,
    "application/x-protobuf".toList⟩

/-- A request of the publish service or the index service, whose bodies are documents. -/
def jsonCall (method path : List Char) (document : Option (List Char))
    (billingTag : Option (List Char)) : ApiCall :=
  ⟨path, method, insertBillingTag [] billingTag, acceptJson, document, "application/json".toList⟩

/-- SOURCE: PublishApi.cpp:55-91 -/
def PublishApi.initPublication (publication : List Char) (billingTag : Option (List Char)) :
    ApiCall :=
  jsonCall "POST".toList "/publications".toList (some publication) billingTag

/-- SOURCE: PublishApi.cpp:106-145 -/
def PublishApi.uploadPartitions (publishPartitions publicationId layerId : List Char)
    (billingTag : Option (List Char)) : ApiCall :=
  jsonCall "POST".toList
    ("/layers/".toList ++ layerId ++ "/publications/".toList ++ publicationId ++
      "/partitions".toList) (some publishPartitions) billingTag

/-- The path of a publication. -/
def publicationPath (publicationId : List Char) : List Char :=
  "/publications/".toList ++ publicationId

/-- SOURCE: PublishApi.cpp:159-190 -/
def PublishApi.submitPublication (publicationId : List Char) (billingTag : Option (List Char)) :
    ApiCall :=
  jsonCall "PUT".toList (publicationPath publicationId) none billingTag

/-- SOURCE: PublishApi.cpp:204-236 -/
def PublishApi.getPublication (publicationId : List Char) (billingTag : Option (List Char)) :
    ApiCall :=
  jsonCall "GET".toList (publicationPath publicationId) none billingTag

/-- SOURCE: PublishApi.cpp:250-281 -/
def PublishApi.cancelPublication (publicationId : List Char) (billingTag : Option (List Char)) :
    ApiCall :=
  jsonCall "DELETE".toList (publicationPath publicationId) none billingTag

/-- SOURCE: IndexApi.cpp:53-88 -/
def IndexApi.insertIndexes (indexes layerId : List Char) (billingTag : Option (List Char)) :
    ApiCall :=
  jsonCall "POST".toList ("/layers/".toList ++ layerId) (some indexes) billingTag

/-- SOURCE: IndexApi.cpp:101-134 -/
def IndexApi.performUpdate (request layerId : List Char) (billingTag : Option (List Char)) :
    ApiCall :=
  jsonCall "PUT".toList ("/layers/".toList ++ layerId) (some request) billingTag

/-! ## Requests and answers -/

/-- A call of one of the functions. -/
inductive ServiceRequest where
  | platformApis (service serviceVersion : List Char)
  | resourceApis (hrn service serviceVersion : List Char)
  | getCatalog (catalogHrn : List Char) (billingTag : Option (List Char))
  | getLayerVersions (version : ℤ) (billingTag : Option (List Char))
  | getLatestCatalogVersion (startVersion : ℤ) (billingTag : Option (List Char))
  | getPartitions (layerId : List Char) (version : Option ℤ)
      (additionalFields : Option (List (List Char))) (range billingTag : Option (List Char))
  | getPartitionsbyId (layerId : List Char) (partition : List (List Char)) (version : Option ℤ)
      (additionalFields : Option (List (List Char))) (billingTag : Option (List Char))
  | quadTreeIndex (layerId : List Char) (version : ℤ) (quadKey : List Char) (depth : ℤ)
      (additionalFields : Option (List (List Char))) (billingTag : Option (List Char))
  | getBlob (layerId dataHandle : List Char) (billingTag range : Option (List Char))
  | getVolatileBlob (layerId dataHandle : List Char) (billingTag : Option (List Char))
  | putBlob (layerId contentType dataHandle : List Char) (data : Option (List Char))
      (billingTag : Option (List Char))
  | deleteBlob (layerId dataHandle : List Char) (billingTag : Option (List Char))
  | checkBlobExists (layerId dataHandle : List Char) (billingTag : Option (List Char))
  | ingestData (layerId contentType : List Char) (data : Option (List Char))
      (traceId billingTag checksum : Option (List Char))
  | ingestSdii (layerId : List Char) (sdiiMessageList : Option (List Char))
      (traceId billingTag checksum : Option (List Char))
  | initPublication (publication : List Char) (billingTag : Option (List Char))
  | uploadPartitions (publishPartitions publicationId layerId : List Char)
      (billingTag : Option (List Char))
  | submitPublication (publicationId : List Char) (billingTag : Option (List Char))
  | getPublication (publicationId : List Char) (billingTag : Option (List Char))
  | cancelPublication (publicationId : List Char) (billingTag : Option (List Char))
  | insertIndexes (indexes layerId : List Char) (billingTag : Option (List Char))
  | performUpdate (request layerId : List Char) (billingTag : Option (List Char))
deriving DecidableEq

namespace ServiceRequest

/-- What the function hands to `CallApi`. -/
def apiCall : ServiceRequest → Option ApiCall
  | platformApis service serviceVersion => PlatformApi.getApis service serviceVersion
  | resourceApis hrn service serviceVersion => ResourcesApi.getApis hrn service serviceVersion
  | getCatalog catalogHrn billingTag => ConfigApi.getCatalog catalogHrn billingTag
  | getLayerVersions version billingTag => MetadataApi.getLayerVersions version billingTag
  | getLatestCatalogVersion startVersion billingTag =>
    MetadataApi.getLatestCatalogVersion startVersion billingTag
  | getPartitions layerId version additionalFields range billingTag =>
    MetadataApi.getPartitions layerId version additionalFields range billingTag
  | getPartitionsbyId layerId partition version additionalFields billingTag =>
    QueryApi.getPartitionsbyId layerId partition version additionalFields billingTag
  | quadTreeIndex layerId version quadKey depth additionalFields billingTag =>
    QueryApi.quadTreeIndex layerId version quadKey depth additionalFields billingTag
  | getBlob layerId dataHandle billingTag range =>
    BlobApi.getBlob layerId dataHandle billingTag range
  | getVolatileBlob layerId dataHandle billingTag =>
    VolatileBlobApi.getVolatileBlob layerId dataHandle billingTag
  | putBlob layerId contentType dataHandle data billingTag =>
    BlobApi.putBlob layerId contentType dataHandle data billingTag
  | deleteBlob layerId dataHandle billingTag => BlobApi.deleteBlob layerId dataHandle billingTag
  | checkBlobExists layerId dataHandle billingTag =>
    BlobApi.checkBlobExists layerId dataHandle billingTag
  | ingestData layerId contentType data traceId billingTag checksum =>
    IngestApi.ingestData layerId contentType data traceId billingTag checksum
  | ingestSdii layerId sdiiMessageList traceId billingTag checksum =>
    IngestApi.ingestSdii layerId sdiiMessageList traceId billingTag checksum
  | initPublication publication billingTag => PublishApi.initPublication publication billingTag
  | uploadPartitions publishPartitions publicationId layerId billingTag =>
    PublishApi.uploadPartitions publishPartitions publicationId layerId billingTag
  | submitPublication publicationId billingTag =>
    PublishApi.submitPublication publicationId billingTag
  | getPublication publicationId billingTag => PublishApi.getPublication publicationId billingTag
  | cancelPublication publicationId billingTag =>
    PublishApi.cancelPublication publicationId billingTag
  | insertIndexes indexes layerId billingTag => IndexApi.insertIndexes indexes layerId billingTag
  | performUpdate request layerId billingTag => IndexApi.performUpdate request layerId billingTag

/-- The request that `CallApi` makes. -/
def httpRequest (c : OlpClient) (sdkUserAgent : List Char) (x : ServiceRequest) :
    Option NetworkRequest :=
  x.apiCall.map fun call =>
    c.createRequest sdkUserAgent call.path call.method call.queryParams call.headerParams
      call.postBody call.contentType

end ServiceRequest

/-- What the callback of a function is given: an error, a text to be parsed or to be taken as
data, nothing, or the status. -/
inductive ServiceAnswer where
  | error (e : ApiError)
  | document (text : List Char)
  | data (content : List Char)
  | noResult
  | status (httpStatus : ℤ)
deriving DecidableEq

/-- An error unless the status is accepted. -/
def accept (response : HttpResponse) (accepted : ℤ → Bool) (result : ServiceAnswer) :
    ServiceAnswer :=
  if accepted response.status then result
  else .error (.ofStatus response.status response.response)

/-- What a function makes of the response.
SOURCE: the callbacks that the functions hand to `CallApi` -/
def ServiceRequest.answer (response : HttpResponse) : ServiceRequest → ServiceAnswer
  | getBlob .. | getVolatileBlob .. => accept response (· = 200) (.data response.response)
  | putBlob .. => accept response (· = 200) .noResult
  | deleteBlob .. => accept response (fun status => status = 200 ∨ status = 202) .noResult
  | checkBlobExists .. =>
    accept response (fun status => status = 200 ∨ status = 404) (.status response.status)
  | uploadPartitions .. | submitPublication .. | cancelPublication .. =>
    accept response (· = 204) .noResult
  | insertIndexes .. | performUpdate .. => accept response (· ≤ 201) .noResult
  | _ => accept response (· = 200) (.document response.response)

/-! ## What the repositories ask -/

/-- The function a repository calls. The configuration service is looked up at the platform.
SOURCE: read ApiClientLookup.cpp:69-88, CatalogRepository.cpp:128-131, 224-226,
PartitionsRepository.cpp:119-120, 313-317, 450-455, DataRepository.cpp:82-92 -/
def serviceRequest (catalogHrn : List Char) : NetworkCall → ServiceRequest
  | .lookupApiClient service serviceVersion =>
    if service = "config".toList then .platformApis service serviceVersion
    else .resourceApis catalogHrn service serviceVersion
  | .getCatalog _ billingTag => .getCatalog catalogHrn billingTag
  | .getLatestCatalogVersion _ startVersion billingTag =>
    .getLatestCatalogVersion startVersion billingTag
  | .getLayerVersions _ version billingTag => .getLayerVersions version billingTag
  | .getPartitions _ layerId version billingTag =>
    .getPartitions layerId version none none billingTag
  | .getPartitionsbyId _ layerId partitions version billingTag =>
    .getPartitionsbyId layerId partitions version none billingTag
  | .getBlob .blob _ layerId dataHandle billingTag => .getBlob layerId dataHandle billingTag none
  | .getBlob .volatileBlob _ layerId dataHandle billingTag =>
    .getVolatileBlob layerId dataHandle billingTag

/-- The base URL it goes to: services are looked up at the server of the catalog. -/
def baseUrl (lookupUrl : List Char) : NetworkCall → List Char
  | .lookupApiClient _ _ => lookupUrl
  | .getCatalog url _ | .getLatestCatalogVersion url _ _ | .getLayerVersions url _ _
  | .getPartitions url _ _ _ | .getPartitionsbyId url _ _ _ _ | .getBlob _ url _ _ _ => url

/-- The request that is sent for a call of a repository. -/
def sent (c : OlpClient) (sdkUserAgent lookupUrl catalogHrn : List Char) (call : NetworkCall) :
    Option NetworkRequest :=
  (serviceRequest catalogHrn call).httpRequest { c with baseUrl := baseUrl lookupUrl call }
    sdkUserAgent

end ServiceApis

end OlpEdgeSdk.Model

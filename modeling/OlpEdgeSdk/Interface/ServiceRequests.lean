import OlpEdgeSdk.Base.Resources
import OlpEdgeSdk.Model.ServiceApis

/-!
# What a service understands

The services are told apart by their base URLs. A service sees the method of a request, the
resource its target names behind the base URL, some headers and the content. `routed` is what it
takes a request for, and `seen` what a request should look like to it. Texts are compared as
they stand: decoding them is up to the service.
-/

set_option autoImplicit false

namespace OlpEdgeSdk.Interface

open OlpEdgeSdk.Base OlpEdgeSdk.Base.Parameters OlpEdgeSdk.Model OlpEdgeSdk.Model.ServiceApis

inductive ServiceName where
  | lookup
  | config
  | metadata
  | query
  | blob
  | volatileBlob
  | publish
  | ingest
  | index
deriving DecidableEq, Repr

/-- What a service sees of a request. -/
structure Seen where
  verb : HttpVerb
  resource : Resource
  range : Option (List Char)
  traceId : Option (List Char)
  checksum : Option (List Char)
  contentType : Option (List Char)
  content : Option (List Char)
deriving DecidableEq

/-- The value of the last header with a name. -/
def header (name : List Char) (headers : List (List Char × List Char)) : Option (List Char) :=
  (headers.reverse.find? fun h => h.1 = name).map Prod.snd

namespace Seen

/-- What is seen of a request to a base URL. -/
def ofRequest (baseUrl : List Char) (request : NetworkRequest) : Seen where
  verb := request.verb
  resource := .ofTarget (request.url.drop baseUrl.length)
  range := header "Range".toList request.extraHeaders
  traceId := header "X-HERE-TraceId".toList request.extraHeaders
  checksum := header "X-HERE-Checksum".toList request.extraHeaders
  contentType := header "Content-Type".toList request.extraHeaders
  content := request.content

/-! ## Parameters of the query -/

def values (s : Seen) (name : List Char) : List (List Char) :=
  (s.resource.params.filter fun p => p.1 = name).map Prod.snd

def value (s : Seen) (name : List Char) : Option (List Char) := (s.values name).head?

def billingTag (s : Seen) : Option (List Char) := s.value "billingTag".toList

def version (s : Seen) : Option ℤ := (s.value "version".toList).bind readDecimal

def additionalFields (s : Seen) : Option (List (List Char)) :=
  (s.value "additionalFields".toList).map (·.splitOn ',')

/-! ## Routing -/

/-- What a request is by its resource, and where this is not enough by its method. -/
def named (s : Seen) : ServiceName → Option ServiceRequest
  | .lookup =>
    match s.resource.segments with
    | [a, b, service, version] =>
      if a = "platform".toList ∧ b = "apis".toList then some (.platformApis service version)
      else none
    | [a, hrn, b, service, version] =>
      if a = "resources".toList ∧ b = "apis".toList then some (.resourceApis hrn service version)
      else none
    | _ => none
  | .config =>
    match s.resource.segments with
    | [a, hrn] => if a = "catalogs".toList then some (.getCatalog hrn s.billingTag) else none
    | _ => none
  | .metadata =>
    match s.resource.segments with
    | [a] =>
      if a = "layerVersions".toList then
        s.version.map fun version => .getLayerVersions version s.billingTag
      else none
    | [a, b] =>
      if a = "versions".toList ∧ b = "latest".toList then
        ((s.value "startVersion".toList).bind readDecimal).map fun startVersion =>
          .getLatestCatalogVersion startVersion s.billingTag
      else none
    | [a, layerId, b] =>
      if a = "layers".toList ∧ b = "partitions".toList then
        some (.getPartitions layerId s.version s.additionalFields s.range s.billingTag)
      else none
    | _ => none
  | .query =>
    match s.resource.segments with
    | [a, layerId, b] =>
      if a = "layers".toList ∧ b = "partitions".toList then
        some (.getPartitionsbyId layerId (s.values "partition".toList) s.version
          s.additionalFields s.billingTag)
      else none
    | [a, layerId, b, version, c, quadKey, d, depth] =>
      if a = "layers".toList ∧ b = "versions".toList ∧ c = "quadkeys".toList ∧
          d = "depths".toList then
        (readDecimal version).bind fun version => (readDecimal depth).map fun depth =>
          .quadTreeIndex layerId version quadKey depth s.additionalFields s.billingTag
      else none
    | _ => none
  | .blob =>
    match s.resource.segments with
    | [a, layerId, b, dataHandle] =>
      if a = "layers".toList ∧ b = "data".toList then
        match s.verb with
        | .GET => some (.getBlob layerId dataHandle s.billingTag s.range)
        | .PUT =>
          some (.putBlob layerId (s.contentType.getD []) dataHandle s.content s.billingTag)
        | .DEL => some (.deleteBlob layerId dataHandle s.billingTag)
        | .HEAD => some (.checkBlobExists layerId dataHandle s.billingTag)
        | _ => none
      else none
    | _ => none
  | .volatileBlob =>
    match s.resource.segments with
    | [a, layerId, b, dataHandle] =>
      if a = "layers".toList ∧ b = "data".toList ∧ s.verb = .GET then
        some (.getVolatileBlob layerId dataHandle s.billingTag)
      else none
    | _ => none
  | .publish =>
    match s.resource.segments with
    | [a] =>
      if a = "publications".toList then
        s.content.map fun publication => .initPublication publication s.billingTag
      else none
    | [a, publicationId] =>
      if a = "publications".toList then
        match s.verb with
        | .PUT => some (.submitPublication publicationId s.billingTag)
        | .GET => some (.getPublication publicationId s.billingTag)
        | .DEL => some (.cancelPublication publicationId s.billingTag)
        | _ => none
      else none
    | [a, layerId, b, publicationId, c] =>
      if a = "layers".toList ∧ b = "publications".toList ∧ c = "partitions".toList then
        s.content.map fun partitions =>
          .uploadPartitions partitions publicationId layerId s.billingTag
      else none
    | _ => none
  | .ingest =>
    match s.resource.segments with
    | [a, layerId] =>
      if a = "layers".toList then
        some (.ingestData layerId (s.contentType.getD []) s.content s.traceId s.billingTag
          s.checksum)
      else none
    | [a, layerId, b] =>
      if a = "layers".toList ∧ b = "sdiiMessageList".toList then
        some (.ingestSdii layerId s.content s.traceId s.billingTag s.checksum)
      else none
    | _ => none
  | .index =>
    match s.resource.segments with
    | [a, layerId] =>
      if a = "layers".toList then
        match s.verb with
        | .POST => s.content.map fun indexes => .insertIndexes indexes layerId s.billingTag
        | .PUT => s.content.map fun request => .performUpdate request layerId s.billingTag
        | _ => none
      else none
    | _ => none

end Seen

/-! ## What a service should see -/

namespace Request

/-- The service a function belongs to. -/
def service : ServiceRequest → ServiceName
  | .platformApis .. | .resourceApis .. => .lookup
  | .getCatalog .. => .config
  | .getLayerVersions .. | .getLatestCatalogVersion .. | .getPartitions .. => .metadata
  | .getPartitionsbyId .. | .quadTreeIndex .. => .query
  | .getBlob .. | .putBlob .. | .deleteBlob .. | .checkBlobExists .. => .blob
  | .getVolatileBlob .. => .volatileBlob
  | .initPublication .. | .uploadPartitions .. | .submitPublication .. | .getPublication ..
  | .cancelPublication .. => .publish
  | .ingestData .. | .ingestSdii .. => .ingest
  | .insertIndexes .. | .performUpdate .. => .index

def verb : ServiceRequest → HttpVerb
  | .putBlob .. | .submitPublication .. | .performUpdate .. => .PUT
  | .deleteBlob .. | .cancelPublication .. => .DEL
  | .checkBlobExists .. => .HEAD
  | .ingestData .. | .ingestSdii .. | .initPublication .. | .uploadPartitions ..
  | .insertIndexes .. => .POST
  | _ => .GET

/-- The segments of the path. -/
def segments : ServiceRequest → List (List Char)
  | .platformApis service version => ["platform".toList, "apis".toList, service, version]
  | .resourceApis hrn service version =>
    ["resources".toList, hrn, "apis".toList, service, version]
  | .getCatalog hrn _ => ["catalogs".toList, hrn]
  | .getLayerVersions .. => ["layerVersions".toList]
  | .getLatestCatalogVersion .. => ["versions".toList, "latest".toList]
  | .getPartitions layerId .. | .getPartitionsbyId layerId .. =>
    ["layers".toList, layerId, "partitions".toList]
  | .quadTreeIndex layerId version quadKey depth _ _ =>
    ["layers".toList, layerId, "versions".toList, decimal version, "quadkeys".toList, quadKey,
      "depths".toList, decimal depth]
  | .getBlob layerId dataHandle .. | .getVolatileBlob layerId dataHandle _
  | .putBlob layerId _ dataHandle .. | .deleteBlob layerId dataHandle _
  | .checkBlobExists layerId dataHandle _ =>
    ["layers".toList, layerId, "data".toList, dataHandle]
  | .ingestData layerId .. | .insertIndexes _ layerId _ | .performUpdate _ layerId _ =>
    ["layers".toList, layerId]
  | .ingestSdii layerId .. => ["layers".toList, layerId, "sdiiMessageList".toList]
  | .initPublication .. => ["publications".toList]
  | .uploadPartitions _ publicationId layerId _ =>
    ["layers".toList, layerId, "publications".toList, publicationId, "partitions".toList]
  | .submitPublication publicationId _ | .getPublication publicationId _
  | .cancelPublication publicationId _ => ["publications".toList, publicationId]

def billingTag : ServiceRequest → Option (List Char)
  | .platformApis .. | .resourceApis .. => none
  | .getCatalog _ tag | .getLayerVersions _ tag | .getLatestCatalogVersion _ tag
  | .getPartitions _ _ _ _ tag | .getPartitionsbyId _ _ _ _ tag | .quadTreeIndex _ _ _ _ _ tag
  | .getBlob _ _ tag _ | .getVolatileBlob _ _ tag | .putBlob _ _ _ _ tag | .deleteBlob _ _ tag
  | .checkBlobExists _ _ tag | .ingestData _ _ _ _ tag _ | .ingestSdii _ _ _ tag _
  | .initPublication _ tag | .uploadPartitions _ _ _ tag | .submitPublication _ tag
  | .getPublication _ tag | .cancelPublication _ tag | .insertIndexes _ _ tag
  | .performUpdate _ _ tag => tag

def additionalFields : ServiceRequest → Option (List (List Char))
  | .getPartitions _ _ fields _ _ | .getPartitionsbyId _ _ _ fields _
  | .quadTreeIndex _ _ _ _ fields _ => fields
  | _ => none

/-- The partitions that are asked for by their ids. -/
def partitions : ServiceRequest → List (List Char)
  | .getPartitionsbyId _ partition _ _ _ => partition
  | _ => []

/-- The parameters with a number. -/
def numbers : ServiceRequest → List (Parameter Char)
  | .getLayerVersions version _ => [("version".toList, decimal version)]
  | .getLatestCatalogVersion startVersion _ => [("startVersion".toList, decimal startVersion)]
  | .getPartitions _ version _ _ _ | .getPartitionsbyId _ _ version _ _ =>
    (version.map fun n => ("version".toList, decimal n)).toList
  | _ => []

/-- The parameters of the query, in the order of their names. -/
def params (x : ServiceRequest) : List (Parameter Char) :=
  ((additionalFields x).map fun fields =>
    ("additionalFields".toList, [','].intercalate fields)).toList ++
  ((billingTag x).map fun tag => ("billingTag".toList, tag)).toList ++
  (partitions x).map (fun id => ("partition".toList, id)) ++ numbers x

def range : ServiceRequest → Option (List Char)
  | .getPartitions _ _ _ range _ | .getBlob _ _ _ range => range
  | _ => none

def traceId : ServiceRequest → Option (List Char)
  | .ingestData _ _ _ traceId _ _ | .ingestSdii _ _ traceId _ _ => traceId
  | _ => none

def checksum : ServiceRequest → Option (List Char)
  | .ingestData _ _ _ _ _ checksum | .ingestSdii _ _ _ _ checksum => checksum
  | _ => none

/-- The type of the content, if it is not empty. -/
def contentType : ServiceRequest → Option (List Char)
  | .putBlob _ contentType _ _ _ | .ingestData _ contentType _ _ _ _ =>
    if contentType = [] then none else some contentType
  | .ingestSdii .. => some "application/x-protobuf".toList
  | .initPublication .. | .uploadPartitions .. | .submitPublication .. | .getPublication ..
  | .cancelPublication .. | .insertIndexes .. | .performUpdate .. =>
    some "application/json".toList
  | _ => none

def content : ServiceRequest → Option (List Char)
  | .putBlob _ _ _ data _ | .ingestData _ _ data _ _ _ | .ingestSdii _ data _ _ _ => data
  | .initPublication document _ | .uploadPartitions document _ _ _ | .insertIndexes document _ _
  | .performUpdate document _ _ => some document
  | _ => none

/-- What the service should see. -/
def seen (x : ServiceRequest) : Seen :=
  ⟨verb x, ⟨segments x, params x⟩, range x, traceId x, checksum x, contentType x, content x⟩

/-- The request can be told from its text: no text of the path holds a sign that ends it, no text
of the query one, no additional field a comma, and where there is a list it is not empty. -/
structure Safe (x : ServiceRequest) : Prop where
  segment : ∀ text ∈ segments x, '/' ∉ text ∧ '?' ∉ text ∧ '#' ∉ text
  value : ∀ text ∈ (billingTag x).toList ++ partitions x ++ ((additionalFields x).getD []),
    '&' ∉ text ∧ '#' ∉ text
  field : ∀ fields ∈ additionalFields x, fields ≠ [] ∧ ∀ text ∈ fields, ',' ∉ text
  partition : ∀ layerId version fields tag, x ≠ .getPartitionsbyId layerId [] version fields tag

end Request

/-- What a service takes a request for: the method and the type of the content must be those of the
function. -/
def Seen.routed (s : Seen) (name : ServiceName) : Option ServiceRequest :=
  (s.named name).filter fun x => Request.verb x = s.verb ∧ Request.contentType x = s.contentType

end OlpEdgeSdk.Interface

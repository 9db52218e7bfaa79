import OlpEdgeSdk.Model.JsonWrapper

/-!
# The documents of the read service

The objects that the repositories keep in the cache as JSON, with all their fields, how they are
written and how they are read. An object is written member by member, in the order of its
fields, and each field is read from the first member of its name.

SOURCE: CatalogSerializer.cpp, CatalogParser.cpp, PartitionsSerializer.cpp,
PartitionsParser.cpp, LayerVersionsSerializer.cpp, LayerVersionsParser.cpp,
VersionResponseSerializer.cpp, VersionResponseParser.cpp
-/

set_option autoImplicit false

namespace OlpEdgeSdk.Model.ReadModel

open OlpEdgeSdk.Base

/-! ## The catalog -/

/-- SOURCE: Catalog.h:36-42 -/
structure Coverage where
  adminAreas : List (List Char)
deriving DecidableEq

/-- SOURCE: CatalogSerializer.cpp:28-33 -/
def Coverage.toJson (x : Coverage) : Json :=
  .object (serialize "adminAreas" x.adminAreas [])

instance : ToJson Coverage := ⟨Coverage.toJson⟩

/-- SOURCE: CatalogParser.cpp:28-30 -/
def Coverage.fromJson (value : Json) : Option Coverage := do
  let adminAreas ← parse value "adminAreas"
  return { adminAreas }

instance : FromJson Coverage where
  fromJson := Coverage.fromJson
  blank := { adminAreas := [] }

/-- SOURCE: Catalog.h:55-64 -/
structure IndexDefinition where
  name : List Char
  type : List Char
  duration : Int64
  zoomLevel : Int64
deriving DecidableEq

/-- SOURCE: CatalogSerializer.cpp:35-43 -/
def IndexDefinition.toJson (x : IndexDefinition) : Json :=
  .object ([]
    |> serialize "name" x.name
    |> serialize "type" x.type
    |> serialize "duration" x.duration
    |> serialize "zoomLevel" x.zoomLevel)

instance : ToJson IndexDefinition := ⟨IndexDefinition.toJson⟩

/-- SOURCE: CatalogParser.cpp:32-37 -/
def IndexDefinition.fromJson (value : Json) : Option IndexDefinition := do
  let name ← parse value "name"
  let type ← parse value "type"
  let duration ← parse value "duration"
  let zoomLevel ← parse value "zoomLevel"
  return { name, type, duration, zoomLevel }

instance : FromJson IndexDefinition where
  fromJson := IndexDefinition.fromJson
  blank := { name := [], type := [], duration := 0, zoomLevel := 0 }

/-- SOURCE: Catalog.h:87-94 -/
structure IndexProperties where
  ttl : List Char
  indexDefinitions : List IndexDefinition
deriving DecidableEq

/-- SOURCE: CatalogSerializer.cpp:45-51 -/
def IndexProperties.toJson (x : IndexProperties) : Json :=
  .object ([]
    |> serialize "ttl" x.ttl
    |> serialize "indexDefinitions" x.indexDefinitions)

instance : ToJson IndexProperties := ⟨IndexProperties.toJson⟩

/-- SOURCE: CatalogParser.cpp:39-43 -/
def IndexProperties.fromJson (value : Json) : Option IndexProperties := do
  let ttl ← parse value "ttl"
  let indexDefinitions ← parse value "indexDefinitions"
  return { ttl, indexDefinitions }

instance : FromJson IndexProperties where
  fromJson := IndexProperties.fromJson
  blank := { ttl := [], indexDefinitions := [] }

/-- SOURCE: Catalog.h:115-121 -/
structure Creator where
  id : List Char
deriving DecidableEq

/-- SOURCE: CatalogSerializer.cpp:53-58 -/
def Creator.toJson (x : Creator) : Json :=
  .object (serialize "id" x.id [])

instance : ToJson Creator := ⟨Creator.toJson⟩

/-- SOURCE: CatalogParser.cpp:45-47 -/
def Creator.fromJson (value : Json) : Option Creator := do
  let id ← parse value "id"
  return { id }

instance : FromJson Creator where
  fromJson := Creator.fromJson
  blank := { id := [] }

/-- SOURCE: Catalog.h:132-139 -/
structure Owner where
  creator : Creator
  organisation : Creator
deriving DecidableEq

/-- SOURCE: CatalogSerializer.cpp:60-66 -/
def Owner.toJson (x : Owner) : Json :=
  .object ([]
    |> serialize "creator" x.creator
    |> serialize "organisation" x.organisation)

instance : ToJson Owner := ⟨Owner.toJson⟩

/-- SOURCE: CatalogParser.cpp:49-52 -/
def Owner.fromJson (value : Json) : Option Owner := do
  let creator ← parse value "creator"
  let organisation ← parse value "organisation"
  return { creator, organisation }

instance : FromJson Owner where
  fromJson := Owner.fromJson
  blank := { creator := FromJson.blank, organisation := FromJson.blank }

/-- SOURCE: Catalog.h:154-161 -/
structure Partitioning where
  scheme : List Char
  tileLevels : List Int64
deriving DecidableEq

/-- SOURCE: CatalogSerializer.cpp:68-74 -/
def Partitioning.toJson (x : Partitioning) : Json :=
  .object ([]
    |> serialize "scheme" x.scheme
    |> serialize "tileLevels" x.tileLevels)

instance : ToJson Partitioning := ⟨Partitioning.toJson⟩

/-- SOURCE: CatalogParser.cpp:54-57 -/
def Partitioning.fromJson (value : Json) : Option Partitioning := do
  let scheme ← parse value "scheme"
  let tileLevels ← parse value "tileLevels"
  return { scheme, tileLevels }

instance : FromJson Partitioning where
  fromJson := Partitioning.fromJson
  blank := { scheme := [], tileLevels := [] }

/-- SOURCE: Catalog.h:178-184 -/
structure Schema where
  hrn : List Char
deriving DecidableEq

/-- SOURCE: CatalogSerializer.cpp:76-81 -/
def Schema.toJson (x : Schema) : Json :=
  .object (serialize "hrn" x.hrn [])

instance : ToJson Schema := ⟨Schema.toJson⟩

/-- SOURCE: CatalogParser.cpp:59-61 -/
def Schema.fromJson (value : Json) : Option Schema := do
  let hrn ← parse value "hrn"
  return { hrn }

instance : FromJson Schema where
  fromJson := Schema.fromJson
  blank := { hrn := [] }

/-- SOURCE: Catalog.h:195-202 -/
structure StreamProperties where
  dataInThroughputMbps : Int64
  dataOutThroughputMbps : Int64
deriving DecidableEq

/-- SOURCE: CatalogSerializer.cpp:83-91 -/
def StreamProperties.toJson (x : StreamProperties) : Json :=
  .object ([]
    |> serialize "dataInThroughputMbps" x.dataInThroughputMbps
    |> serialize "dataOutThroughputMbps" x.dataOutThroughputMbps)

instance : ToJson StreamProperties := ⟨StreamProperties.toJson⟩

/-- The numbers are read as doubles, since the backend may write them with a point.
SOURCE: CatalogParser.cpp:63-71 -/
def StreamProperties.fromJson (value : Json) : Option StreamProperties := do
  let dataInThroughputMbps ← castInt64 (← parse value "dataInThroughputMbps")
  let dataOutThroughputMbps ← castInt64 (← parse value "dataOutThroughputMbps")
  return { dataInThroughputMbps, dataOutThroughputMbps }

instance : FromJson StreamProperties where
  fromJson := StreamProperties.fromJson
  blank := { dataInThroughputMbps := 0, dataOutThroughputMbps := 0 }

/-- SOURCE: Catalog.h:227-233 -/
structure Encryption where
  algorithm : List Char
deriving DecidableEq

/-- SOURCE: CatalogSerializer.cpp:93-98 -/
def Encryption.toJson (x : Encryption) : Json :=
  .object (serialize "algorithm" x.algorithm [])

instance : ToJson Encryption := ⟨Encryption.toJson⟩

/-- SOURCE: CatalogParser.cpp:73-75 -/
def Encryption.fromJson (value : Json) : Option Encryption := do
  let algorithm ← parse value "algorithm"
  return { algorithm }

instance : FromJson Encryption where
  fromJson := Encryption.fromJson
  blank := { algorithm := [] }

/-- SOURCE: Catalog.h:244-253 -/
structure Volume where
  volumeType : List Char
  maxMemoryPolicy : List Char
  packageType : List Char
  encryption : Encryption
deriving DecidableEq

/-- SOURCE: CatalogSerializer.cpp:100-108 -/
def Volume.toJson (x : Volume) : Json :=
  .object ([]
    |> serialize "volumeType" x.volumeType
    |> serialize "maxMemoryPolicy" x.maxMemoryPolicy
    |> serialize "packageType" x.packageType
    |> serialize "encryption" x.encryption)

instance : ToJson Volume := ⟨Volume.toJson⟩

/-- SOURCE: CatalogParser.cpp:77-82 -/
def Volume.fromJson (value : Json) : Option Volume := do
  let volumeType ← parse value "volumeType"
  let maxMemoryPolicy ← parse value "maxMemoryPolicy"
  let packageType ← parse value "packageType"
  let encryption ← parse value "encryption"
  return { volumeType, maxMemoryPolicy, packageType, encryption }

instance : FromJson Volume where
  fromJson := Volume.fromJson
  blank := {
    volumeType := [], maxMemoryPolicy := [], packageType := [], encryption := FromJson.blank }

/-- SOURCE: Catalog.h:278-301 -/
structure Layer where
  id : List Char
  name : List Char
  summary : List Char
  description : List Char
  owner : Owner
  coverage : Coverage
  schema : Schema
  contentType : List Char
  contentEncoding : List Char
  partitioning : Partitioning
  layerType : List Char
  digest : List Char
  tags : List (List Char)
  billingTags : List (List Char)
  ttl : Option Int64
  indexProperties : IndexProperties
  streamProperties : StreamProperties
  volume : Volume
deriving DecidableEq

/-- SOURCE: CatalogSerializer.cpp:110-132 -/
def Layer.toJson (x : Layer) : Json :=
  .object ([]
    |> serialize "id" x.id
    |> serialize "name" x.name
    |> serialize "summary" x.summary
    |> serialize "description" x.description
    |> serialize "owner" x.owner
    |> serialize "coverage" x.coverage
    |> serialize "schema" x.schema
    |> serialize "contentType" x.contentType
    |> serialize "contentEncoding" x.contentEncoding
    |> serialize "partitioning" x.partitioning
    |> serialize "layerType" x.layerType
    |> serialize "digest" x.digest
    |> serialize "tags" x.tags
    |> serialize "billingTags" x.billingTags
    |> serialize "ttl" x.ttl
    |> serialize "indexProperties" x.indexProperties
    |> serialize "streamProperties" x.streamProperties
    |> serialize "volume" x.volume)

instance : ToJson Layer := ⟨Layer.toJson⟩

/-- SOURCE: CatalogParser.cpp:84-104 -/
def Layer.fromJson (value : Json) : Option Layer := do
  let id ← parse value "id"
  let name ← parse value "name"
  let summary ← parse value "summary"
  let description ← parse value "description"
  let owner ← parse value "owner"
  let coverage ← parse value "coverage"
  let schema ← parse value "schema"
  let contentType ← parse value "contentType"
  let contentEncoding ← parse value "contentEncoding"
  let partitioning ← parse value "partitioning"
  let layerType ← parse value "layerType"
  let digest ← parse value "digest"
  let tags ← parse value "tags"
  let billingTags ← parse value "billingTags"
  let ttl ← parse value "ttl"
  let indexProperties ← parse value "indexProperties"
  let streamProperties ← parse value "streamProperties"
  let volume ← parse value "volume"
  return {
    id, name, summary, description, owner, coverage, schema, contentType, contentEncoding,
    partitioning, layerType, digest, tags, billingTags, ttl, indexProperties, streamProperties,
    volume }

instance : FromJson Layer where
  fromJson := Layer.fromJson
  blank := {
    id := [], name := [], summary := [], description := [], owner := FromJson.blank,
    coverage := FromJson.blank, schema := FromJson.blank, contentType := [], contentEncoding := [],
    partitioning := FromJson.blank, layerType := [], digest := [], tags := [], billingTags := [],
    ttl := none, indexProperties := FromJson.blank, streamProperties := FromJson.blank,
    volume := FromJson.blank }

/-- SOURCE: Catalog.h:396-402 -/
structure Notifications where
  enabled : Bool
deriving DecidableEq

/-- SOURCE: CatalogSerializer.cpp:134-139 -/
def Notifications.toJson (x : Notifications) : Json :=
  .object (serialize "enabled" x.enabled [])

instance : ToJson Notifications := ⟨Notifications.toJson⟩

/-- SOURCE: CatalogParser.cpp:106-108 -/
def Notifications.fromJson (value : Json) : Option Notifications := do
  let enabled ← parse value "enabled"
  return { enabled }

instance : FromJson Notifications where
  fromJson := Notifications.fromJson
  blank := { enabled := false }

/-- SOURCE: Catalog.h:413-431 -/
structure Catalog where
  id : List Char
  hrn : List Char
  name : List Char
  summary : List Char
  description : List Char
  coverage : Coverage
  owner : Owner
  tags : List (List Char)
  billingTags : List (List Char)
  created : List Char
  layers : List Layer
  version : Int64
  notifications : Notifications
deriving DecidableEq

/-- SOURCE: CatalogSerializer.cpp:141-158 -/
def Catalog.toJson (x : Catalog) : Json :=
  .object ([]
    |> serialize "id" x.id
    |> serialize "hrn" x.hrn
    |> serialize "name" x.name
    |> serialize "summary" x.summary
    |> serialize "description" x.description
    |> serialize "coverage" x.coverage
    |> serialize "owner" x.owner
    |> serialize "tags" x.tags
    |> serialize "billingTags" x.billingTags
    |> serialize "created" x.created
    |> serialize "layers" x.layers
    |> serialize "version" x.version
    |> serialize "notifications" x.notifications)

instance : ToJson Catalog := ⟨Catalog.toJson⟩

/-- SOURCE: CatalogParser.cpp:110-124 -/
def Catalog.fromJson (value : Json) : Option Catalog := do
  let id ← parse value "id"
  let hrn ← parse value "hrn"
  let name ← parse value "name"
  let summary ← parse value "summary"
  let description ← parse value "description"
  let coverage ← parse value "coverage"
  let owner ← parse value "owner"
  let tags ← parse value "tags"
  let billingTags ← parse value "billingTags"
  let created ← parse value "created"
  let layers ← parse value "layers"
  let version ← parse value "version"
  let notifications ← parse value "notifications"
  return {
    id, hrn, name, summary, description, coverage, owner, tags, billingTags, created, layers,
    version, notifications }

instance : FromJson Catalog where
  fromJson := Catalog.fromJson
  blank := {
    id := [], hrn := [], name := [], summary := [], description := [], coverage := FromJson.blank,
    owner := FromJson.blank, tags := [], billingTags := [], created := [], layers := [],
    version := 0, notifications := FromJson.blank }

/-! ## Versions and partitions -/

/-- SOURCE: VersionResponse.h:37-43 -/
structure VersionResponse where
  version : Int64
deriving DecidableEq

/-- SOURCE: VersionResponseSerializer.cpp:28-33 -/
def VersionResponse.toJson (x : VersionResponse) : Json :=
  .object (serialize "version" x.version [])

instance : ToJson VersionResponse := ⟨VersionResponse.toJson⟩

/-- SOURCE: VersionResponseParser.cpp:28-30 -/
def VersionResponse.fromJson (value : Json) : Option VersionResponse := do
  let version ← parse value "version"
  return { version }

instance : FromJson VersionResponse where
  fromJson := VersionResponse.fromJson
  blank := { version := 0 }

/-- SOURCE: LayerVersions.h:33-41 -/
structure LayerVersion where
  layer : List Char
  version : Int64
  timestamp : Int64
deriving DecidableEq

/-- SOURCE: LayerVersionsSerializer.cpp:28-35 -/
def LayerVersion.toJson (x : LayerVersion) : Json :=
  .object ([]
    |> serialize "layer" x.layer
    |> serialize "version" x.version
    |> serialize "timestamp" x.timestamp)

instance : ToJson LayerVersion := ⟨LayerVersion.toJson⟩

/-- SOURCE: LayerVersionsParser.cpp:28-32 -/
def LayerVersion.fromJson (value : Json) : Option LayerVersion := do
  let layer ← parse value "layer"
  let version ← parse value "version"
  let timestamp ← parse value "timestamp"
  return { layer, version, timestamp }

instance : FromJson LayerVersion where
  fromJson := LayerVersion.fromJson
  blank := { layer := [], version := 0, timestamp := 0 }

/-- SOURCE: LayerVersions.h:60-67 -/
structure LayerVersions where
  layerVersions : List LayerVersion
  version : Int64
deriving DecidableEq

/-- SOURCE: LayerVersionsSerializer.cpp:36-42 -/
def LayerVersions.toJson (x : LayerVersions) : Json :=
  .object ([]
    |> serialize "layerVersions" x.layerVersions
    |> serialize "version" x.version)

instance : ToJson LayerVersions := ⟨LayerVersions.toJson⟩

/-- SOURCE: LayerVersionsParser.cpp:34-38 -/
def LayerVersions.fromJson (value : Json) : Option LayerVersions := do
  let layerVersions ← parse value "layerVersions"
  let version ← parse value "version"
  return { layerVersions, version }

instance : FromJson LayerVersions where
  fromJson := LayerVersions.fromJson
  blank := { layerVersions := [], version := 0 }

/-- SOURCE: Partitions.h:37-48 -/
structure Partition where
  checksum : Option (List Char)
  compressedDataSize : Option Int64
  dataHandle : List Char
  dataSize : Option Int64
  partition : List Char
  version : Option Int64
deriving DecidableEq

/-- SOURCE: PartitionsSerializer.cpp:28-38 -/
def Partition.toJson (x : Partition) : Json :=
  .object ([]
    |> serialize "checksum" x.checksum
    |> serialize "compressedDataSize" x.compressedDataSize
    |> serialize "dataHandle" x.dataHandle
    |> serialize "dataSize" x.dataSize
    |> serialize "partition" x.partition
    |> serialize "version" x.version)

instance : ToJson Partition := ⟨Partition.toJson⟩

/-- SOURCE: PartitionsParser.cpp:28-36 -/
def Partition.fromJson (value : Json) : Option Partition := do
  let checksum ← parse value "checksum"
  let compressedDataSize ← parse value "compressedDataSize"
  let dataHandle ← parse value "dataHandle"
  let dataSize ← parse value "dataSize"
  let partition ← parse value "partition"
  let version ← parse value "version"
  return { checksum, compressedDataSize, dataHandle, dataSize, partition, version }

instance : FromJson Partition where
  fromJson := Partition.fromJson
  blank := {
    checksum := none, compressedDataSize := none, dataHandle := [], dataSize := none,
    partition := [], version := none }

/-! ## What the cache holds as text -/

/-- What the repositories put into the cache as JSON. -/
inductive Document where
  | catalog (x : Catalog)
  | version (x : VersionResponse)
  | partition (x : Partition)
  | partitionIds (ids : List (List Char))
  | layerVersions (x : LayerVersions)
deriving DecidableEq

/-- The encoder that goes with the `Put` of a document.
SOURCE: CatalogCacheRepository.cpp:58-59, 80-81, PartitionsCacheRepository.cpp:77-78, 87-88,
136-137 -/
def Document.encode (text : JsonText) : Document → List Char
  | .catalog x => serializeText text x
  | .version x => serializeText text x
  | .partition x => serializeText text x
  | .partitionIds ids => serializeText text ids
  | .layerVersions x => serializeText text x

/-- The decoder that goes with the `Get` for a document of the same kind.
SOURCE: CatalogCacheRepository.cpp:67-69, 89-91, PartitionsCacheRepository.cpp:105-107, 122-124,
146-148 -/
def Document.decode (text : JsonText) (json : List Char) : Document → Option Document
  | .catalog _ => (parseText text json).map .catalog
  | .version _ => (parseText text json).map .version
  | .partition _ => (parseText text json).map .partition
  | .partitionIds _ => (parseText text json).map .partitionIds
  | .layerVersions _ => (parseText text json).map .layerVersions

end OlpEdgeSdk.Model.ReadModel

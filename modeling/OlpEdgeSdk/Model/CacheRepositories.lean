import Mathlib.Data.Char
import Mathlib.Data.List.Lex
import OlpEdgeSdk.Base.Decimal
import OlpEdgeSdk.Base.SortedMap
import OlpEdgeSdk.Model.Requests

/-!
# What the repositories keep in the cache

Each repository keeps its objects in one key-value cache, under texts that begin with the name
of the catalog. The cache is a map here: it holds what was put last with its expiry, no time
passes and nothing is evicted, and `RemoveKeysWithPrefix` removes the keys with that prefix.
Objects are kept as they are, so a serialised object parses to itself. A value of another type
than the one asked for is as good as none; no two repositories use one key for two types.

Of an object the fields are modelled that some function reads; the others are one text.

SOURCE: ApiCacheRepository.cpp, CatalogCacheRepository.cpp, PartitionsCacheRepository.cpp,
DataCacheRepository.cpp
-/

set_option autoImplicit false

namespace OlpEdgeSdk.Model

open OlpEdgeSdk.Base

/-! ## Objects -/

/-- A layer of a catalog; the time to live is in milliseconds. -/
structure Layer where
  id : List Char
  layerType : List Char
  ttl : Option ℤ
deriving DecidableEq, Repr

structure Catalog where
  layers : List Layer
  others : List Char
deriving DecidableEq, Repr

structure LayerVersion where
  layer : List Char
  version : ℤ
deriving DecidableEq, Repr

structure Partition where
  partition : List Char
  dataHandle : List Char
  others : List Char
deriving DecidableEq, Repr

/-- What the cache holds under a key. -/
inductive CacheValue where
  | url (url : List Char)
  | catalog (catalog : Catalog)
  | version (version : ℤ)
  | partition (partition : Partition)
  | partitionIds (ids : List (List Char))
  | layerVersions (layerVersions : List LayerVersion)
  | data (bytes : List Char)
deriving DecidableEq, Repr

/-- A value and the seconds after which it expires, if it does. -/
structure CacheEntry where
  value : CacheValue
  expiry : Option ℤ
deriving DecidableEq, Repr

/-- The key-value cache. -/
abbrev Store : Type := SortedMap (List Char) CacheEntry

namespace Store

/-- The value under a key. -/
def valueAt (s : Store) (key : List Char) : Option CacheValue :=
  (s.find key).map CacheEntry.value

/-- `RemoveKeysWithPrefix`. -/
def removeKeysWithPrefix (s : Store) ( keyPrefix : List Char) : Store :=
  s.filterKeys fun key => !keyPrefix.isPrefixOf key

end Store

/-- `"::"`, between the parts of a key. -/
def separator : List Char := [':', ':']

/-! ## Service URLs -/

namespace ApiCacheRepository

variable (hrn : List Char)

/-- SOURCE: ApiCacheRepository.cpp:28-31 -/
def createKey (service serviceVersion : List Char) : List Char :=
  hrn ++ separator ++ service ++ separator ++ serviceVersion ++ "::api".toList

/-- SOURCE: ApiCacheRepository.cpp:43-51 -/
def put (service serviceVersion serviceUrl : List Char) (s : Store) : Store :=
  s.insert (createKey hrn service serviceVersion) ⟨.url serviceUrl, some 3600⟩

/-- SOURCE: ApiCacheRepository.cpp:53-64 -/
def get (service serviceVersion : List Char) (s : Store) : Option (List Char) :=
  match s.valueAt (createKey hrn service serviceVersion) with
  | some (.url url) => some url
  | _ => none

end ApiCacheRepository

/-! ## Catalogs -/

namespace CatalogCacheRepository

variable (hrn : List Char)

/-- SOURCE: CatalogCacheRepository.cpp:39 -/
def createKey : List Char := hrn ++ "::catalog".toList

/-- SOURCE: CatalogCacheRepository.cpp:40-42 -/
def versionKey : List Char := hrn ++ "::latestVersion".toList

/-- SOURCE: CatalogCacheRepository.cpp:54-60 -/
def put (catalog : Catalog) (s : Store) : Store :=
  s.insert (createKey hrn) ⟨.catalog catalog, none⟩

/-- SOURCE: CatalogCacheRepository.cpp:62-75 -/
def get (s : Store) : Option Catalog :=
  match s.valueAt (createKey hrn) with
  | some (.catalog catalog) => some catalog
  | _ => none

/-- SOURCE: CatalogCacheRepository.cpp:77-82 -/
def putVersion (version : ℤ) (s : Store) : Store :=
  s.insert (versionKey hrn) ⟨.version version, none⟩

/-- SOURCE: CatalogCacheRepository.cpp:84-96 -/
def getVersion (s : Store) : Option ℤ :=
  match s.valueAt (versionKey hrn) with
  | some (.version version) => some version
  | _ => none

/-- SOURCE: CatalogCacheRepository.cpp:98-102 -/
def clear (s : Store) : Store := s.removeKeysWithPrefix hrn

end CatalogCacheRepository

/-! ## Partitions -/

namespace PartitionsCacheRepository

variable (hrn : List Char)

/-- The key of a partition.
SOURCE: PartitionsCacheRepository.cpp:39-44 -/
def partitionKey (layerId partitionId : List Char) (version : Option ℤ) : List Char :=
  hrn ++ separator ++ layerId ++ separator ++ partitionId ++ separator ++
    match version with
    | some version => decimal version ++ "::partition".toList
    | none => []

/-- The key of the ids of a layer.
SOURCE: PartitionsCacheRepository.cpp:45-49 -/
def partitionsKey (layerId : List Char) (version : Option ℤ) : List Char :=
  hrn ++ separator ++ layerId ++ separator ++
    match version with
    | some version => decimal version ++ "::partitions".toList
    | none => []

/-- The key of the versions of the layers.
SOURCE: PartitionsCacheRepository.cpp:50-52 -/
def layerVersionsKey (catalogVersion : ℤ) : List Char :=
  hrn ++ separator ++ decimal catalogVersion ++ "::layerVersions".toList

/-- SOURCE: PartitionsCacheRepository.cpp:64-91 -/
def put (r : PartitionsRequest) (partitions : List Partition) (expiry : Option ℤ)
    (allLayer : Bool) (s : Store) : Store :=
  let s := partitions.foldl (fun s p =>
    s.insert (partitionKey hrn r.layerId p.partition r.version) ⟨.partition p, expiry⟩) s
  if allLayer then
    s.insert (partitionsKey hrn r.layerId r.version)
      ⟨.partitionIds (partitions.map Partition.partition), expiry⟩
  else s

/-- The cached ones of some partitions.
SOURCE: PartitionsCacheRepository.cpp:93-115 -/
def getByIds (r : PartitionsRequest) (partitionIds : List (List Char)) (s : Store) :
    List Partition :=
  partitionIds.filterMap fun id =>
    match s.valueAt (partitionKey hrn r.layerId id r.version) with
    | some (.partition p) => some p
    | _ => none

/-- The cached ones of the partitions of a layer, if the layer was cached.
SOURCE: PartitionsCacheRepository.cpp:117-130 -/
def get (r : PartitionsRequest) (s : Store) : Option (List Partition) :=
  match s.valueAt (partitionsKey hrn r.layerId r.version) with
  | some (.partitionIds ids) => some (getByIds hrn r ids s)
  | _ => none

/-- SOURCE: PartitionsCacheRepository.cpp:132-138 -/
def putLayerVersions (catalogVersion : ℤ) (layerVersions : List LayerVersion) (s : Store) :
    Store :=
  s.insert (layerVersionsKey hrn catalogVersion) ⟨.layerVersions layerVersions, none⟩

/-- SOURCE: PartitionsCacheRepository.cpp:140-153 -/
def getLayerVersions (catalogVersion : ℤ) (s : Store) : Option (List LayerVersion) :=
  match s.valueAt (layerVersionsKey hrn catalogVersion) with
  | some (.layerVersions layerVersions) => some layerVersions
  | _ => none

/-- SOURCE: PartitionsCacheRepository.cpp:155-160 -/
def clear (layerId : List Char) (s : Store) : Store :=
  s.removeKeysWithPrefix (partitionsKey hrn layerId none)

/-- Only partitions that are cached are cleared, with their data.
SOURCE: PartitionsCacheRepository.cpp:162-175 -/
def clearPartitions (r : PartitionsRequest) (partitionIds : List (List Char)) (s : Store) :
    Store :=
  (getByIds hrn r partitionIds s).foldl (fun s p =>
    (s.removeKeysWithPrefix (hrn ++ separator ++ r.layerId ++ separator ++ p.dataHandle)
      ).removeKeysWithPrefix (hrn ++ separator ++ r.layerId ++ separator ++ p.partition)) s

end PartitionsCacheRepository

/-! ## Data -/

namespace DataCacheRepository

variable (hrn : List Char)

/-- SOURCE: DataCacheRepository.cpp:28-31 -/
def createKey (layerId dataHandle : List Char) : List Char :=
  hrn ++ separator ++ layerId ++ separator ++ dataHandle ++ "::Data".toList

/-- SOURCE: DataCacheRepository.cpp:43-50 -/
def put (data layerId dataHandle : List Char) (s : Store) : Store :=
  s.insert (createKey hrn layerId dataHandle) ⟨.data data, none⟩

/-- SOURCE: DataCacheRepository.cpp:52-63 -/
def get (layerId dataHandle : List Char) (s : Store) : Option (List Char) :=
  match s.valueAt (createKey hrn layerId dataHandle) with
  | some (.data data) => some data
  | _ => none

/-- SOURCE: DataCacheRepository.cpp:65-71 -/
def clear (layerId dataHandle : List Char) (s : Store) : Store :=
  s.removeKeysWithPrefix (createKey hrn layerId dataHandle)

end DataCacheRepository

/-! ## The four repositories of a catalog -/

namespace CacheRepositories

/-- What the repositories of a catalog can be asked for. -/
inductive Read where
  | url (service serviceVersion : List Char)
  | catalog
  | version
  | partitionsByIds (r : PartitionsRequest) (partitionIds : List (List Char))
  | partitions (r : PartitionsRequest)
  | layerVersions (catalogVersion : ℤ)
  | data (layerId dataHandle : List Char)

/-- The answer to a read. -/
inductive Answer where
  | url (url : Option (List Char))
  | catalog (catalog : Option Catalog)
  | version (version : Option ℤ)
  | partitions (partitions : Option (List Partition))
  | layerVersions (layerVersions : Option (List LayerVersion))
  | data (data : Option (List Char))
deriving DecidableEq, Repr

/-- What a `Get` of the repositories of a catalog returns. -/
def Read.answer (hrn : List Char) : Read → Store → Answer
  | .url service serviceVersion, s => .url (ApiCacheRepository.get hrn service serviceVersion s)
  | .catalog, s => .catalog (CatalogCacheRepository.get hrn s)
  | .version, s => .version (CatalogCacheRepository.getVersion hrn s)
  | .partitionsByIds r ids, s => .partitions (some (PartitionsCacheRepository.getByIds hrn r ids s))
  | .partitions r, s => .partitions (PartitionsCacheRepository.get hrn r s)
  | .layerVersions catalogVersion, s =>
    .layerVersions (PartitionsCacheRepository.getLayerVersions hrn catalogVersion s)
  | .data layerId dataHandle, s => .data (DataCacheRepository.get hrn layerId dataHandle s)

/-- What can be done with the repositories of a catalog. -/
inductive Operation where
  | putUrl (service serviceVersion serviceUrl : List Char)
  | putCatalog (catalog : Catalog)
  | putVersion (version : ℤ)
  | clearCatalog
  | putPartitions (r : PartitionsRequest) (partitions : List Partition) (expiry : Option ℤ)
      (allLayer : Bool)
  | putLayerVersions (catalogVersion : ℤ) (layerVersions : List LayerVersion)
  | clearLayer (layerId : List Char)
  | clearPartitions (r : PartitionsRequest) (partitionIds : List (List Char))
  | putData (data layerId dataHandle : List Char)
  | clearData (layerId dataHandle : List Char)
  | get (read : Read)

/-- One operation on the cache, by the repositories of a catalog. -/
def Operation.apply (hrn : List Char) : Operation → Store → Store
  | .putUrl service serviceVersion serviceUrl =>
    ApiCacheRepository.put hrn service serviceVersion serviceUrl
  | .putCatalog catalog => CatalogCacheRepository.put hrn catalog
  | .putVersion version => CatalogCacheRepository.putVersion hrn version
  | .clearCatalog => CatalogCacheRepository.clear hrn
  | .putPartitions r partitions expiry allLayer =>
    PartitionsCacheRepository.put hrn r partitions expiry allLayer
  | .putLayerVersions catalogVersion layerVersions =>
    PartitionsCacheRepository.putLayerVersions hrn catalogVersion layerVersions
  | .clearLayer layerId => PartitionsCacheRepository.clear hrn layerId
  | .clearPartitions r partitionIds => PartitionsCacheRepository.clearPartitions hrn r partitionIds
  | .putData data layerId dataHandle => DataCacheRepository.put hrn data layerId dataHandle
  | .clearData layerId dataHandle => DataCacheRepository.clear hrn layerId dataHandle
  | .get _ => id

/-- What happens to the cache: an operation, or entries that it drops on its own, for their age
or for want of room. -/
inductive CacheEvent where
  | call (operation : Operation)
  | drop (lost : List Char → Bool)

/-- One event. -/
def CacheEvent.apply (hrn : List Char) : CacheEvent → Store → Store
  | .call operation, s => operation.apply hrn s
  | .drop lost, s => s.filterKeys fun key => !lost key

end CacheRepositories

/-! ## Reads that find another type -/

/-- `boost::bad_any_cast`. -/
inductive CastFault where
  | badAnyCast
deriving DecidableEq, Repr

namespace PartitionsCacheRepository

variable (hrn : List Char)

/-- `getByIds`, where an entry of another type is no partition to be left out.
SOURCE: PartitionsCacheRepository.cpp:93-115 -/
def getByIdsOrThrow (r : PartitionsRequest) (partitionIds : List (List Char)) (s : Store) :
    Except CastFault (List Partition) :=
  partitionIds.foldlM (fun cachedPartitions id =>
    match s.valueAt (partitionKey hrn r.layerId id r.version) with
    | none => .ok cachedPartitions
    | some (.partition p) => .ok (cachedPartitions ++ [p])
    | some _ => .error .badAnyCast) []

/-- `get`, where an entry of another type is not as good as none.
SOURCE: PartitionsCacheRepository.cpp:117-130 -/
def getOrThrow (r : PartitionsRequest) (s : Store) :
    Except CastFault (Option (List Partition)) :=
  match s.valueAt (partitionsKey hrn r.layerId r.version) with
  | none => .ok none
  | some (.partitionIds ids) => do
    let partitions ← getByIdsOrThrow hrn r ids s
    return some partitions
  | some _ => .error .badAnyCast

end PartitionsCacheRepository

end OlpEdgeSdk.Model

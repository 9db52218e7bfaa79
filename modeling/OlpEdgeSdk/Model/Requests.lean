import OlpEdgeSdk.Base.Decimal
import OlpEdgeSdk.Base.Separators

/-!
# Requests and their keys

The requests a catalog client takes, with the texts they are coalesced under. An optional
field of a request is an `Option`, and a version a whole number.

SOURCE: CatalogRequest.h, CatalogVersionRequest.h, PartitionsRequest.h, DataRequest.h,
FetchOptions.h, PartitionsRepository.cpp
-/

set_option autoImplicit false

namespace OlpEdgeSdk.Model

open OlpEdgeSdk.Base

/-- SOURCE: FetchOptions.h:26-47 -/
inductive FetchOptions where
  | onlineIfNotFound
  | onlineOnly
  | cacheOnly
  | cacheWithUpdate
deriving DecidableEq, Repr

/-- The number a fetch option is written as. -/
def FetchOptions.value : FetchOptions → ℤ
  | .onlineIfNotFound => 0
  | .onlineOnly => 1
  | .cacheOnly => 2
  | .cacheWithUpdate => 3

/-- The billing tag, if there is one, and the fetch option: how every key ends. -/
def keyEnd (billingTag : Option (List Char)) (fetchOption : FetchOptions) : List Char :=
  optionalField '$' billingTag ++ '^' :: decimal fetchOption.value

/-- The version, if there is one, and the end of the key. -/
def keyVersionEnd (version : Option ℤ) (billingTag : Option (List Char))
    (fetchOption : FetchOptions) : List Char :=
  optionalField '@' (version.map decimal) ++ keyEnd billingTag fetchOption

/-- SOURCE: CatalogRequest.h:112-115 -/
structure CatalogRequest where
  billingTag : Option (List Char) := none
  fetchOption : FetchOptions := .onlineIfNotFound
deriving DecidableEq, Repr

/-- SOURCE: CatalogRequest.h:100-110 -/
def CatalogRequest.createKey (r : CatalogRequest) : List Char :=
  keyEnd r.billingTag r.fetchOption

/-- SOURCE: CatalogVersionRequest.h:132-136 -/
structure CatalogVersionRequest where
  startVersion : ℤ := 0
  billingTag : Option (List Char) := none
  fetchOption : FetchOptions := .onlineIfNotFound
deriving DecidableEq, Repr

/-- SOURCE: CatalogVersionRequest.h:118-130 -/
def CatalogVersionRequest.createKey (r : CatalogVersionRequest) : List Char :=
  keyVersionEnd (some r.startVersion) r.billingTag r.fetchOption

/-- SOURCE: PartitionsRequest.h:163-168 -/
structure PartitionsRequest where
  layerId : List Char := []
  version : Option ℤ := none
  billingTag : Option (List Char) := none
  fetchOption : FetchOptions := .onlineIfNotFound
deriving DecidableEq, Repr

/-- SOURCE: PartitionsRequest.h:146-161 -/
def PartitionsRequest.createKey (r : PartitionsRequest) : List Char :=
  r.layerId ++ keyVersionEnd r.version r.billingTag r.fetchOption

/-- The key of a request for some partitions: their ids stand between brackets, with commas
between them.
SOURCE: PartitionsRepository.cpp:49-77 -/
def getKey (r : PartitionsRequest) (partitions : List (List Char)) : List Char :=
  r.layerId ++ '[' :: [','].intercalate partitions ++
    ']' :: keyVersionEnd r.version r.billingTag r.fetchOption

/-- The calls of one `PartitionsRepository`, which share its `MultiRequestContext`. -/
inductive PartitionsCall where
  | getPartitions (r : PartitionsRequest)
  | getPartitionsById (r : PartitionsRequest) (partitions : List (List Char))
deriving DecidableEq, Repr

/-- The key a call is coalesced under.
SOURCE: PartitionsRepository.cpp:240, 376 -/
def PartitionsCall.requestKey : PartitionsCall → List Char
  | .getPartitions r => r.createKey
  | .getPartitionsById r partitions => getKey r partitions

/-- SOURCE: DataRequest.h:241-248 -/
structure DataRequest where
  layerId : List Char := []
  partitionId : Option (List Char) := none
  version : Option ℤ := none
  dataHandle : Option (List Char) := none
  billingTag : Option (List Char) := none
  fetchOption : FetchOptions := .onlineIfNotFound
deriving DecidableEq, Repr

/-- What stands between the brackets of a key: the partition id, else the data handle. -/
def DataRequest.bracketed (r : DataRequest) : List Char :=
  match r.partitionId, r.dataHandle with
  | some partitionId, _ => partitionId
  | none, some dataHandle => dataHandle
  | none, none => []

/-- SOURCE: DataRequest.h:215-239 -/
def DataRequest.createKey (r : DataRequest) : List Char :=
  r.layerId ++ '[' :: r.bracketed ++ ']' :: keyVersionEnd r.version r.billingTag r.fetchOption

end OlpEdgeSdk.Model

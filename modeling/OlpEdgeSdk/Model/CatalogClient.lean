import OlpEdgeSdk.Model.Repositories

/-!
# One call of a catalog client

What `CatalogClientImpl` answers a call with, while no other request is running, and what the
call leaves in the cache. No task scheduler is set, so a task runs at once; the requests of one
call follow one another anyway, since each is started by the callback of the one before.

The network is a function from requests to answers, and the requests it got are recorded.

SOURCE: CatalogClientImpl.cpp, ApiRepository.cpp, CatalogRepository.cpp,
PartitionsRepository.cpp, DataRepository.cpp
-/

set_option autoImplicit false

namespace OlpEdgeSdk.Model

open OlpEdgeSdk.Base

/-- What the network answers to each request. -/
abbrev Network : Type := (call : NetworkCall) → call.Answer

/-- The cache, and the requests the network got. -/
abbrev World : Type := Store × List NetworkCall

def Network.handle (net : Network) (call : NetworkCall) (w : World) : call.Answer × World :=
  (net call, w.1, w.2 ++ [call])

section Handlers

variable (net : Network) (hrn : List Char)

def CatalogRepository.handle : (op : CatalogRepository.Op) → World → op.Answer × World
  | .getApiClient service version, w =>
    (ApiRepository.getApiClient hrn service version).eval net.handle w
  | .network call, w => net.handle call w

def PartitionsRepository.handle : (op : PartitionsRepository.Op) → World → op.Answer × World
  | .getCatalog r, w =>
    (CatalogRepository.getCatalog hrn r).eval (CatalogRepository.handle net hrn) w
  | .getLatestCatalogVersion r, w =>
    (CatalogRepository.getLatestCatalogVersion hrn r).eval (CatalogRepository.handle net hrn) w
  | .getApiClient service version, w =>
    (ApiRepository.getApiClient hrn service version).eval net.handle w
  | .network call, w => net.handle call w

def DataRepository.handle : (op : DataRepository.Op) → World → op.Answer × World
  | .getCatalog r, w =>
    (CatalogRepository.getCatalog hrn r).eval (CatalogRepository.handle net hrn) w
  | .getPartitionsById r partitions, w =>
    (PartitionsRepository.getPartitionsById hrn r partitions).eval
      (PartitionsRepository.handle net hrn) w
  | .getApiClient service version, w =>
    (ApiRepository.getApiClient hrn service version).eval net.handle w
  | .network call, w => net.handle call w

end Handlers

namespace CatalogClientImpl

/-- `CacheWithUpdate` asks the cache for the caller, and then asks with `OnlineIfNotFound` in
the background; every other fetch option is passed on. -/
def withUpdate {α : Type} (ask : FetchOptions → World → Response α × World)
    (fetchOption : FetchOptions) (w : World) : Response α × World :=
  if fetchOption = .cacheWithUpdate then
    let (response, w) := ask .cacheOnly w
    let (_, w) := ask .onlineIfNotFound w
    (response, w)
  else ask fetchOption w

variable (net : Network) (hrn : List Char)

/-- SOURCE: CatalogClientImpl.cpp:78-110 -/
def answerCatalog (r : CatalogRequest) : World → Response Catalog × World :=
  withUpdate (fun fetchOption =>
    (CatalogRepository.getCatalog hrn { r with fetchOption := fetchOption }).eval
      (CatalogRepository.handle net hrn)) r.fetchOption

/-- SOURCE: CatalogClientImpl.cpp:120-153 -/
def answerCatalogMetadataVersion (r : CatalogVersionRequest) : World → Response ℤ × World :=
  withUpdate (fun fetchOption =>
    (CatalogRepository.getLatestCatalogVersion hrn { r with fetchOption := fetchOption }).eval
      (CatalogRepository.handle net hrn)) r.fetchOption

/-- SOURCE: CatalogClientImpl.cpp:165-194 -/
def answerPartitions (r : PartitionsRequest) : World → Response (List Partition) × World :=
  withUpdate (fun fetchOption =>
    (PartitionsRepository.getPartitions hrn { r with fetchOption := fetchOption }).eval
      (PartitionsRepository.handle net hrn)) r.fetchOption

/-- SOURCE: CatalogClientImpl.cpp:205-232, DataRepository.cpp:179-330 -/
def answerData (r : DataRequest) : World → Response Data × World :=
  withUpdate (fun fetchOption w =>
    match DataRepository.rejected r with
    | some error => (.error error, w)
    | none => (DataRepository.getData hrn { r with fetchOption := fetchOption }).eval
        (DataRepository.handle net hrn) w) r.fetchOption

end CatalogClientImpl

end OlpEdgeSdk.Model

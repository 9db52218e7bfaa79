import OlpEdgeSdk.Analysis.CacheKeys
import OlpEdgeSdk.Analysis.RepositoryPatterns
import OlpEdgeSdk.Model.CatalogClient

/-!
# Fetch options through all levels

A call with `CacheOnly` sends nothing to the network, at no level. A call with `OnlineOnly`
answers the same whatever the cache holds, as far as it agrees on the service URLs and the
layer versions, which are read for every fetch option.

SOURCE: CatalogClientImpl.cpp, CatalogRepository.cpp, PartitionsRepository.cpp,
DataRepository.cpp
-/

set_option autoImplicit false

namespace OlpEdgeSdk.Analysis.FetchOptions

open OlpEdgeSdk.Base OlpEdgeSdk.Model OlpEdgeSdk.Model.CatalogClientImpl
open OlpEdgeSdk.Analysis.CacheKeys OlpEdgeSdk.Analysis.RepositoryPatterns

variable {Op : Type} {Answer : Op → Type} {Reply α : Type}

/-! ## The requests of a program -/

section Uses

theorem uses_checkCache {Allowed : Op → Prop} {fetchOption : FetchOptions}
    {get : Store → Option α} {notFound : List Char}
    {callback : Response α → Program Op Answer Store Reply}
    {online : Program Op Answer Store Reply} (hcallback : ∀ a, (callback a).Uses Allowed)
    (honline : online.Uses Allowed) :
    (checkCache fetchOption get notFound callback online).Uses Allowed :=
  structural_checkCache (Program.structural_uses Allowed) hcallback honline

theorem uses_cacheResponseCallback {Allowed : Op → Prop} {put : α → Store → Store}
    {clear : Store → Store} {callback : Response α → Program Op Answer Store Reply}
    (hcallback : ∀ a, (callback a).Uses Allowed) (response : Response α) :
    (cacheResponseCallback put clear callback response).Uses Allowed :=
  structural_cacheResponseCallback (Program.structural_uses Allowed) hcallback response

theorem uses_appendPartitionsRequest {Allowed : PartitionsRepository.Op → Prop}
    {r : PartitionsRequest} (hcatalog : Allowed (.getCatalog ⟨r.billingTag, r.fetchOption⟩))
    (hlatest : Allowed (.getLatestCatalogVersion ⟨-1, r.billingTag, r.fetchOption⟩))
    {fetchPartitions : PartitionsRequest → Option ℤ → PartitionsRepository.PartitionsProgram}
    (hfetch : ∀ appended expiry, (fetchPartitions appended expiry).Uses Allowed) :
    (PartitionsRepository.appendPartitionsRequest r fetchPartitions).Uses Allowed := by
  apply appendPartitionsRequest_of_requests (fun _ => trivial) _ _ hfetch
  · intro next _ hnext
    exact ⟨hcatalog, hnext⟩
  · intro next _ hnext
    exact ⟨hlatest, hnext⟩

theorem uses_verifyResponseCallback {Allowed : DataRepository.Op → Prop} (hrn : List Char)
    (r : DataRequest) (partitionId : List Char) (response : Response Data) :
    (DataRepository.verifyResponseCallback hrn r partitionId response).Uses Allowed := by
  unfold DataRepository.verifyResponseCallback
  split
  · split
    · trivial
    · trivial
  · trivial

end Uses

/-! ## CacheOnly -/

section CacheOnly

theorem uses_checkCache_cacheOnly {Allowed : Op → Prop} {get : Store → Option α}
    {notFound : List Char} {callback : Response α → Program Op Answer Store Reply}
    {online : Program Op Answer Store Reply} (hcallback : ∀ a, (callback a).Uses Allowed) :
    (checkCache .cacheOnly get notFound callback online).Uses Allowed := by
  intro s
  dsimp only
  split
  · exact hcallback _
  · exact hcallback _

variable (net : Network) (hrn : List Char)

theorem getCatalog_sends_nothing (r : CatalogRequest) (hr : r.fetchOption = .cacheOnly)
    (w : World) :
    ((CatalogRepository.getCatalog hrn r).eval (CatalogRepository.handle net hrn) w).2.2 = w.2 := by
  refine Program.eval_rest (fun _ => False) (fun _ h => h.elim) ?_ w
  unfold CatalogRepository.getCatalog
  rw [hr]
  exact uses_checkCache_cacheOnly fun _ => trivial

theorem getLatestCatalogVersion_sends_nothing (r : CatalogVersionRequest)
    (hr : r.fetchOption = .cacheOnly) (w : World) :
    ((CatalogRepository.getLatestCatalogVersion hrn r).eval
      (CatalogRepository.handle net hrn) w).2.2 = w.2 := by
  refine Program.eval_rest (fun _ => False) (fun _ h => h.elim) ?_ w
  unfold CatalogRepository.getLatestCatalogVersion
  rw [hr]
  intro s
  dsimp only
  split
  · trivial
  · trivial

/-- The requests of a `PartitionsRepository` that stay in the cache. -/
def PartitionsOffline : PartitionsRepository.Op → Prop
  | .getCatalog r => r.fetchOption = .cacheOnly
  | .getLatestCatalogVersion r => r.fetchOption = .cacheOnly
  | _ => False

theorem partitionsHandle_sends_nothing (op : PartitionsRepository.Op)
    (hop : PartitionsOffline op) (w : World) :
    (PartitionsRepository.handle net hrn op w).2.2 = w.2 := by
  cases op with
  | getCatalog r => exact getCatalog_sends_nothing net hrn r hop w
  | getLatestCatalogVersion r => exact getLatestCatalogVersion_sends_nothing net hrn r hop w
  | getApiClient => exact hop.elim
  | network => exact hop.elim

theorem getPartitions_sends_nothing (r : PartitionsRequest) (hr : r.fetchOption = .cacheOnly)
    (w : World) :
    ((PartitionsRepository.getPartitions hrn r).eval
      (PartitionsRepository.handle net hrn) w).2.2 = w.2 := by
  refine Program.eval_rest PartitionsOffline (partitionsHandle_sends_nothing net hrn) ?_ w
  refine uses_appendPartitionsRequest hr hr fun appended expiry => ?_
  rw [hr]
  exact uses_checkCache_cacheOnly fun _ => trivial

theorem getPartitionsById_sends_nothing (r : PartitionsRequest)
    (partitions : List (List Char)) (hr : r.fetchOption = .cacheOnly) (w : World) :
    ((PartitionsRepository.getPartitionsById hrn r partitions).eval
      (PartitionsRepository.handle net hrn) w).2.2 = w.2 := by
  refine Program.eval_rest PartitionsOffline (partitionsHandle_sends_nothing net hrn) ?_ w
  refine uses_appendPartitionsRequest hr hr fun appended expiry => ?_
  rw [hr]
  exact uses_checkCache_cacheOnly fun _ => trivial

/-- The requests of a `DataRepository` that stay in the cache. -/
def DataOffline : DataRepository.Op → Prop
  | .getCatalog r => r.fetchOption = .cacheOnly
  | .getPartitionsById r _ => r.fetchOption = .cacheOnly
  | _ => False

theorem dataHandle_sends_nothing (op : DataRepository.Op) (hop : DataOffline op) (w : World) :
    (DataRepository.handle net hrn op w).2.2 = w.2 := by
  cases op with
  | getCatalog r => exact getCatalog_sends_nothing net hrn r hop w
  | getPartitionsById r ids => exact getPartitionsById_sends_nothing net hrn r ids hop w
  | getApiClient => exact hop.elim
  | network => exact hop.elim

theorem uses_getDataInternal {layerType : List Char} {r : DataRequest}
    (hr : r.fetchOption = .cacheOnly) {callback : Response Data → DataRepository.DataProgram}
    (hcallback : ∀ a, (callback a).Uses DataOffline) :
    (DataRepository.getDataInternal hrn layerType r callback).Uses DataOffline := by
  unfold DataRepository.getDataInternal
  dsimp only
  split
  · exact hcallback _
  · rw [hr]
    exact uses_checkCache_cacheOnly hcallback

theorem getData_sends_nothing (r : DataRequest) (hr : r.fetchOption = .cacheOnly) (w : World) :
    ((DataRepository.getData hrn r).eval (DataRepository.handle net hrn) w).2.2 = w.2 := by
  refine Program.eval_rest DataOffline (dataHandle_sends_nothing net hrn) ?_ w
  refine ⟨hr, fun response => ?_⟩
  dsimp only
  split
  · trivial
  · split
    · trivial
    · split
      · exact uses_getDataInternal hrn hr fun _ => trivial
      · refine ⟨hr, fun response => ?_⟩
        unfold DataRepository.getPartitionsCallback
        split
        · trivial
        · split
          · trivial
          · exact uses_getDataInternal hrn (by exact hr) (uses_verifyResponseCallback hrn _ _)
        · trivial

end CacheOnly

/-! ## OnlineOnly -/

/-- The keys that are read for every fetch option: those of the service URLs and of the layer
versions. -/
def ServiceKey (hrn key : List Char) : Prop :=
  (∃ service version, key = ApiCacheRepository.createKey hrn service version) ∨
    ∃ version, key = PartitionsCacheRepository.layerVersionsKey hrn version

/-- Two caches hold the same service URLs and layer versions. -/
def Agree (hrn : List Char) (s s' : Store) : Prop :=
  ∀ key, ServiceKey hrn key → s.valueAt key = s'.valueAt key

section Agree

variable {hrn : List Char} {s s' : Store}

theorem agree_insert (h : Agree hrn s s') (key : List Char) (entry : CacheEntry) :
    Agree hrn (s.insert key entry) (s'.insert key entry) := by
  intro other hother
  rw [valueAt_insert, valueAt_insert, h other hother]

theorem agree_removeKeysWithPrefix (h : Agree hrn s s') (start : List Char) :
    Agree hrn (s.removeKeysWithPrefix start) (s'.removeKeysWithPrefix start) := by
  intro other hother
  rw [valueAt_removeKeysWithPrefix, valueAt_removeKeysWithPrefix, h other hother]

theorem agree_put (h : Agree hrn s s') (r : PartitionsRequest) (partitions : List Partition)
    (expiry : Option ℤ) (allLayer : Bool) :
    Agree hrn (PartitionsCacheRepository.put hrn r partitions expiry allLayer s)
      (PartitionsCacheRepository.put hrn r partitions expiry allLayer s') := by
  have hfold : ∀ t t' : Store, Agree hrn t t' → Agree hrn
      (partitions.foldl (fun t p => t.insert
        (PartitionsCacheRepository.partitionKey hrn r.layerId p.partition r.version)
        ⟨.partition p, expiry⟩) t)
      (partitions.foldl (fun t p => t.insert
        (PartitionsCacheRepository.partitionKey hrn r.layerId p.partition r.version)
        ⟨.partition p, expiry⟩) t') := by
    induction partitions with
    | nil => exact fun t t' ht => ht
    | cons p partitions ih => exact fun t t' ht => ih _ _ (agree_insert ht _ _)
  unfold PartitionsCacheRepository.put
  dsimp only
  split
  · exact agree_insert (hfold s s' h) _ _
  · exact hfold s s' h

theorem agree_of_onlyWrites {kinds : List Kind} (h : OnlyWrites kinds s s')
    (hurl : .url ∉ kinds) (hversions : .layerVersions ∉ kinds) : Agree hrn s s' := by
  rintro key (⟨service, version, rfl⟩ | ⟨version, rfl⟩)
  · exact (h.valueAt (kindOf_url hrn service version) hurl).symm
  · exact (h.valueAt (kindOf_layerVersions hrn version) hversions).symm

theorem Agree.url (h : Agree hrn s s') (service version : List Char) :
    ApiCacheRepository.get hrn service version s =
      ApiCacheRepository.get hrn service version s' := by
  unfold ApiCacheRepository.get
  rw [h _ (Or.inl ⟨service, version, rfl⟩)]

theorem Agree.layerVersions (h : Agree hrn s s') (version : ℤ) :
    PartitionsCacheRepository.getLayerVersions hrn version s =
      PartitionsCacheRepository.getLayerVersions hrn version s' := by
  unfold PartitionsCacheRepository.getLayerVersions
  rw [h _ (Or.inr ⟨version, rfl⟩)]

end Agree

section OnlineOnly

variable (net : Network) (hrn : List Char)

/-- On caches that agree something answers the same, and the caches agree afterwards, unless
the answer is `Last`. -/
def Alike (Last : α → Prop) (run : World → α × World) : Prop :=
  ∀ w w' : World, Agree hrn w.1 w'.1 →
    (run w).1 = (run w').1 ∧ (Agree hrn (run w).2.1 (run w').2.1 ∨ Last (run w).1)

/-- The allowed requests are answered alike. -/
def HandlesAlike (handle : (op : Op) → World → Answer op × World) (Allowed : Op → Prop)
    (Final : (op : Op) → Answer op → Prop) : Prop :=
  ∀ op, Allowed op → Alike hrn (Final op) (handle op)

/-- Nothing is final: the caches agree after every answer. -/
def never {β : Op → Type} : (op : Op) → β op → Prop := fun _ _ => False

theorem networkHandle_alike : HandlesAlike hrn net.handle (fun _ => True) never :=
  fun _ _ _ _ hw => ⟨rfl, Or.inl hw⟩

theorem insensitive_checkCache_onlineOnly {Related : Store → Store → Prop}
    {Allowed : Op → Prop} {Final : (op : Op) → Answer op → Prop} {Last : Reply → Prop}
    {get : Store → Option α} {notFound : List Char}
    {callback : Response α → Program Op Answer Store Reply}
    {online : Program Op Answer Store Reply}
    (honline : online.Insensitive Related Allowed Final Last) :
    (checkCache .onlineOnly get notFound callback online).Insensitive Related Allowed Final
      Last := by
  unfold checkCache
  rw [if_neg (not_not.mpr rfl)]
  exact honline

theorem insensitive_cacheResponseCallback {Allowed : Op → Prop}
    {Final : (op : Op) → Answer op → Prop} {Last : Reply → Prop} {put : α → Store → Store}
    {clear : Store → Store} {callback : Response α → Program Op Answer Store Reply}
    (hput : ∀ a s s', Agree hrn s s' → Agree hrn (put a s) (put a s'))
    (hclear : ∀ s s', Agree hrn s s' → Agree hrn (clear s) (clear s'))
    (hcallback : ∀ a, (callback a).Insensitive (Agree hrn) Allowed Final Last)
    (response : Response α) :
    (cacheResponseCallback put clear callback response).Insensitive (Agree hrn) Allowed Final
      Last := by
  unfold cacheResponseCallback
  split
  · exact Or.inl ⟨hput _, hcallback _⟩
  · split
    · exact Or.inl ⟨hclear, hcallback _⟩
    · exact hcallback _

theorem getApiClient_alike (service version : List Char) :
    Alike hrn (fun _ => False)
      ((ApiRepository.getApiClient hrn service version).eval net.handle) := by
  have hinsensitive : (ApiRepository.getApiClient hrn service version).Insensitive (Agree hrn)
      (fun _ => True) never (fun _ => False) := by
    intro s s' hs
    have hread := hs.url service version
    dsimp only
    refine ⟨by rw [hread], ?_⟩
    split
    · trivial
    · refine ⟨trivial, fun response => ⟨?_, False.elim⟩⟩
      dsimp only
      split
      · exact Or.inl ⟨fun t t' ht => agree_insert ht _ _, trivial⟩
      · trivial
  exact fun w w' => Program.eval_of_insensitive (networkHandle_alike net hrn) hinsensitive

theorem catalogHandle_alike :
    HandlesAlike hrn (CatalogRepository.handle net hrn) (fun _ => True) never := by
  intro op _
  cases op with
  | getApiClient service version => exact getApiClient_alike net hrn service version
  | network call => exact networkHandle_alike net hrn call trivial

theorem getCatalog_alike (r : CatalogRequest) (hr : r.fetchOption = .onlineOnly) :
    Alike hrn (fun _ => False)
      ((CatalogRepository.getCatalog hrn r).eval (CatalogRepository.handle net hrn)) := by
  have hinsensitive : (CatalogRepository.getCatalog hrn r).Insensitive (Agree hrn)
      (fun _ => True) never (fun _ => False) := by
    unfold CatalogRepository.getCatalog
    rw [hr]
    refine Program.insensitive_executeOrCancelled.mpr (insensitive_checkCache_onlineOnly
      ⟨trivial, fun response => ⟨?_, False.elim⟩⟩)
    dsimp only
    split
    · trivial
    · refine ⟨trivial, fun response => ⟨?_, False.elim⟩⟩
      refine insensitive_cacheResponseCallback hrn ?_ ?_ ?_ response
      · exact fun _ _ _ ht => agree_insert ht _ _
      · exact fun _ _ ht => agree_removeKeysWithPrefix ht _
      · exact fun _ => trivial
  exact fun w w' => Program.eval_of_insensitive (catalogHandle_alike net hrn) hinsensitive

theorem getLatestCatalogVersion_alike (r : CatalogVersionRequest)
    (hr : r.fetchOption = .onlineOnly) :
    Alike hrn (fun _ => False)
      ((CatalogRepository.getLatestCatalogVersion hrn r).eval
        (CatalogRepository.handle net hrn)) := by
  have hinsensitive : (CatalogRepository.getLatestCatalogVersion hrn r).Insensitive (Agree hrn)
      (fun _ => True) never (fun _ => False) := by
    unfold CatalogRepository.getLatestCatalogVersion
    rw [hr]
    refine ⟨trivial, fun response => ⟨?_, False.elim⟩⟩
    dsimp only
    split
    · trivial
    · refine ⟨trivial, fun response => ⟨?_, False.elim⟩⟩
      refine insensitive_cacheResponseCallback hrn ?_ ?_ ?_ response
      · exact fun _ _ _ ht => agree_insert ht _ _
      · exact fun _ _ ht => agree_removeKeysWithPrefix ht _
      · exact fun _ => trivial
  exact fun w w' => Program.eval_of_insensitive (catalogHandle_alike net hrn) hinsensitive

/-- The requests of a `PartitionsRepository` that pass `OnlineOnly` on. -/
def PartitionsOnline : PartitionsRepository.Op → Prop
  | .getCatalog r => r.fetchOption = .onlineOnly
  | .getLatestCatalogVersion r => r.fetchOption = .onlineOnly
  | _ => True

theorem partitionsHandle_alike :
    HandlesAlike hrn (PartitionsRepository.handle net hrn) PartitionsOnline never := by
  intro op hop
  cases op with
  | getCatalog r => exact getCatalog_alike net hrn r hop
  | getLatestCatalogVersion r => exact getLatestCatalogVersion_alike net hrn r hop
  | getApiClient service version => exact getApiClient_alike net hrn service version
  | network call => exact networkHandle_alike net hrn call trivial

/-- A failed request is the last one of a call. -/
def IsError (response : Response α) : Prop := ∃ error, response = .error error

section Partitions

variable {Last : Response (List Partition) → Prop}

/-- A program of the partitions that is insensitive to what else is cached. -/
def Online (Last : Response (List Partition) → Prop)
    (program : PartitionsRepository.PartitionsProgram) : Prop :=
  program.Insensitive (Agree hrn) PartitionsOnline never Last

theorem online_appendPartitionsRequest {r : PartitionsRequest} (hr : r.fetchOption = .onlineOnly)
    {fetchPartitions : PartitionsRequest → Option ℤ → PartitionsRepository.PartitionsProgram}
    (hfetch : ∀ appended expiry, Online hrn Last (fetchPartitions appended expiry)) :
    Online hrn Last (PartitionsRepository.appendPartitionsRequest r fetchPartitions) := by
  apply appendPartitionsRequest_of_requests (fun _ => trivial) _ _ hfetch
  · intro next _ hnext
    exact ⟨hr, fun response => ⟨hnext response, False.elim⟩⟩
  · intro next _ hnext
    exact ⟨hr, fun response => ⟨hnext response, False.elim⟩⟩

theorem online_getPartitionsInternal (url : List Char) (r : PartitionsRequest)
    (expiry version : Option ℤ) :
    Online hrn Last (PartitionsRepository.getPartitionsInternal hrn url r expiry version) := by
  refine ⟨trivial, fun response => ⟨?_, False.elim⟩⟩
  refine insensitive_cacheResponseCallback hrn ?_ ?_ ?_ response
  · exact fun _ _ _ ht => agree_put ht _ _ _ _
  · exact fun _ _ ht => agree_removeKeysWithPrefix ht _
  · exact fun _ => trivial

theorem online_layerVersionCallback (url : List Char) (r : PartitionsRequest) (expiry : Option ℤ)
    (layerVersion : Response ℤ) :
    Online hrn Last (PartitionsRepository.layerVersionCallback hrn url r expiry layerVersion) := by
  unfold PartitionsRepository.layerVersionCallback
  split
  · split
    · exact Or.inl ⟨fun _ _ ht => agree_removeKeysWithPrefix ht _, trivial⟩
    · trivial
  · exact online_getPartitionsInternal hrn url r expiry _

theorem online_layerVersionsCallback {r : PartitionsRequest}
    {callback : Response ℤ → PartitionsRepository.PartitionsProgram}
    (hcallback : ∀ a, Online hrn Last (callback a)) (layerVersions : List LayerVersion) :
    Online hrn Last (PartitionsRepository.layerVersionsCallback r callback layerVersions) := by
  unfold PartitionsRepository.layerVersionsCallback
  split
  · exact hcallback _
  · exact hcallback _

theorem online_getLayerVersion {url : List Char} {r : PartitionsRequest} {version : ℤ}
    {callback : Response ℤ → PartitionsRepository.PartitionsProgram}
    (hcallback : ∀ a, Online hrn Last (callback a)) :
    Online hrn Last (PartitionsRepository.getLayerVersion hrn url r version callback) := by
  intro s s' hs
  have hread := hs.layerVersions version
  dsimp only
  refine ⟨by rw [hread], ?_⟩
  split
  · exact online_layerVersionsCallback hrn hcallback _
  · refine ⟨trivial, fun response => ⟨?_, False.elim⟩⟩
    dsimp only
    split
    · exact hcallback _
    · exact Or.inl ⟨fun _ _ ht => agree_insert ht _ _,
        online_layerVersionsCallback hrn hcallback _⟩

theorem online_fetchPartitions (r : PartitionsRequest) (expiry : Option ℤ) :
    Online hrn Last (PartitionsRepository.fetchPartitions hrn .onlineOnly r expiry) := by
  refine Program.insensitive_executeOrCancelled.mpr (insensitive_checkCache_onlineOnly
    ⟨trivial, fun response => ⟨?_, False.elim⟩⟩)
  dsimp only
  split
  · trivial
  · split
    · exact online_getLayerVersion hrn (online_layerVersionCallback hrn _ r expiry)
    · exact online_getPartitionsInternal hrn _ r expiry none

/-- `clearPartitions` removes what the cached partitions name, which may be anything; but then
the request has failed. -/
theorem online_fetchPartitionsById (partitions : List (List Char)) (r : PartitionsRequest)
    (expiry : Option ℤ) :
    Online hrn IsError
      (PartitionsRepository.fetchPartitionsById hrn .onlineOnly partitions r expiry) := by
  refine Program.insensitive_executeOrCancelled.mpr (insensitive_checkCache_onlineOnly
    ⟨trivial, fun response => ⟨?_, False.elim⟩⟩)
  dsimp only
  split
  · trivial
  · refine ⟨trivial, fun response => ⟨?_, False.elim⟩⟩
    unfold cacheResponseCallback
    split
    · exact Or.inl ⟨fun _ _ ht => agree_put ht _ _ _ _, trivial⟩
    · split
      · exact Or.inr ⟨_, rfl, _, rfl⟩
      · trivial

end Partitions

theorem getPartitions_alike (r : PartitionsRequest) (hr : r.fetchOption = .onlineOnly) :
    Alike hrn IsError
      ((PartitionsRepository.getPartitions hrn r).eval (PartitionsRepository.handle net hrn)) := by
  have honline : Online hrn IsError (PartitionsRepository.getPartitions hrn r) :=
    online_appendPartitionsRequest hrn hr fun appended expiry => by
      rw [hr]
      exact online_fetchPartitions hrn appended expiry
  exact fun w w' => Program.eval_of_insensitive (partitionsHandle_alike net hrn) honline

theorem getPartitionsById_alike (r : PartitionsRequest) (partitions : List (List Char))
    (hr : r.fetchOption = .onlineOnly) :
    Alike hrn IsError
      ((PartitionsRepository.getPartitionsById hrn r partitions).eval
        (PartitionsRepository.handle net hrn)) := by
  have honline : Online hrn IsError (PartitionsRepository.getPartitionsById hrn r partitions) :=
    online_appendPartitionsRequest hrn hr fun appended expiry => by
      rw [hr]
      exact online_fetchPartitionsById hrn partitions appended expiry
  exact fun w w' => Program.eval_of_insensitive (partitionsHandle_alike net hrn) honline

/-- The requests of a `DataRepository` that pass `OnlineOnly` on. -/
def DataOnline : DataRepository.Op → Prop
  | .getCatalog r => r.fetchOption = .onlineOnly
  | .getPartitionsById r _ => r.fetchOption = .onlineOnly
  | _ => True

/-- The answers after which a `DataRepository` only replies. -/
def DataFinal : (op : DataRepository.Op) → op.Answer → Prop
  | .getPartitionsById _ _, response => IsError response
  | _, _ => False

theorem dataHandle_alike :
    HandlesAlike hrn (DataRepository.handle net hrn) DataOnline DataFinal := by
  intro op hop
  cases op with
  | getCatalog r => exact getCatalog_alike net hrn r hop
  | getPartitionsById r ids => exact getPartitionsById_alike net hrn r ids hop
  | getApiClient service version => exact getApiClient_alike net hrn service version
  | network call => exact networkHandle_alike net hrn call trivial

/-- A program of the data that is insensitive to what else is cached. -/
def DataAlike (program : DataRepository.DataProgram) : Prop :=
  program.Insensitive (Agree hrn) DataOnline DataFinal IsError

theorem dataAlike_getDataInternal (layerType : List Char) {r : DataRequest}
    (hr : r.fetchOption = .onlineOnly) {callback : Response Data → DataRepository.DataProgram}
    (hcallback : ∀ a, DataAlike hrn (callback a)) :
    DataAlike hrn (DataRepository.getDataInternal hrn layerType r callback) := by
  unfold DataRepository.getDataInternal
  dsimp only
  split
  · exact hcallback _
  · rw [hr]
    refine Program.insensitive_executeOrCancelled.mpr (insensitive_checkCache_onlineOnly
      ⟨trivial, fun response => ⟨?_, False.elim⟩⟩)
    dsimp only
    split
    · exact hcallback _
    · refine ⟨trivial, fun response => ⟨?_, False.elim⟩⟩
      refine insensitive_cacheResponseCallback hrn ?_ ?_ (fun _ => hcallback _) response
      · exact fun _ _ _ ht => agree_insert ht _ _
      · exact fun _ _ ht => agree_removeKeysWithPrefix ht _

theorem dataAlike_verifyResponseCallback (r : DataRequest) (partitionId : List Char)
    (response : Response Data) :
    DataAlike hrn (DataRepository.verifyResponseCallback hrn r partitionId response) := by
  unfold DataRepository.verifyResponseCallback
  split
  · split
    · exact Or.inr ⟨_, rfl, _, rfl⟩
    · trivial
  · trivial

theorem dataAlike_getPartitionsCallback (layerType : List Char) {r : DataRequest}
    (hr : r.fetchOption = .onlineOnly) (partitionId : List Char)
    (response : Response (List Partition)) :
    DataAlike hrn (DataRepository.getPartitionsCallback hrn layerType r partitionId response) := by
  unfold DataRepository.getPartitionsCallback
  split
  · trivial
  · split
    · trivial
    · exact dataAlike_getDataInternal hrn layerType (by exact hr)
        (dataAlike_verifyResponseCallback hrn _ partitionId)
  · trivial

theorem getData_alike (r : DataRequest) (hr : r.fetchOption = .onlineOnly) :
    Alike hrn IsError
      ((DataRepository.getData hrn r).eval (DataRepository.handle net hrn)) := by
  have halike : DataAlike hrn (DataRepository.getData hrn r) := by
    refine ⟨hr, fun response => ⟨?_, False.elim⟩⟩
    dsimp only
    split
    · trivial
    · split
      · trivial
      · split
        · exact dataAlike_getDataInternal hrn _ hr fun _ => trivial
        · refine ⟨hr, fun response =>
            ⟨dataAlike_getPartitionsCallback hrn _ hr _ response, ?_⟩⟩
          rintro ⟨error, rfl⟩
          exact ⟨_, rfl, _, rfl⟩
  exact fun w w' => Program.eval_of_insensitive (dataHandle_alike net hrn) halike

end OnlineOnly

/-! ## Calls of the client -/

section Client

/-- Only `CacheWithUpdate` makes a call two requests. -/
theorem withUpdate_of_ne {ask : FetchOptions → World → Response α × World}
    {fetchOption : FetchOptions} (h : fetchOption ≠ .cacheWithUpdate) :
    withUpdate ask fetchOption = ask fetchOption := by
  funext w
  exact if_neg h

variable (net : Network) (hrn : List Char)

theorem answerData_cacheOnly (r : DataRequest) (hr : r.fetchOption = .cacheOnly) (w : World) :
    (answerData net hrn r w).2.2 = w.2 := by
  unfold answerData
  rw [hr, withUpdate_of_ne (by decide)]
  split
  · rfl
  · exact getData_sends_nothing net hrn _ rfl w

theorem answerData_onlineOnly (r : DataRequest) (hr : r.fetchOption = .onlineOnly)
    (w w' : World) (hw : Agree hrn w.1 w'.1) :
    (answerData net hrn r w).1 = (answerData net hrn r w').1 := by
  unfold answerData
  rw [hr, withUpdate_of_ne (by decide)]
  split
  · rfl
  · exact (getData_alike net hrn _ rfl w w' hw).1

/-- **The fetch option is respected at every level.** With `CacheOnly` the network gets no
request. With `OnlineOnly` the response depends on the network, the service URLs and the layer
versions only. -/
theorem fetch_option_respected :
    (∀ w : World,
      (∀ r : CatalogRequest, r.fetchOption = .cacheOnly →
        (answerCatalog net hrn r w).2.2 = w.2) ∧
      (∀ r : CatalogVersionRequest, r.fetchOption = .cacheOnly →
        (answerCatalogMetadataVersion net hrn r w).2.2 = w.2) ∧
      (∀ r : PartitionsRequest, r.fetchOption = .cacheOnly →
        (answerPartitions net hrn r w).2.2 = w.2) ∧
      (∀ r : DataRequest, r.fetchOption = .cacheOnly →
        (answerData net hrn r w).2.2 = w.2)) ∧
    (∀ w w' : World, Agree hrn w.1 w'.1 →
      (∀ r : CatalogRequest, r.fetchOption = .onlineOnly →
        (answerCatalog net hrn r w).1 = (answerCatalog net hrn r w').1) ∧
      (∀ r : PartitionsRequest, r.fetchOption = .onlineOnly →
        (answerPartitions net hrn r w).1 = (answerPartitions net hrn r w').1) ∧
      (∀ r : DataRequest, r.fetchOption = .onlineOnly →
        (answerData net hrn r w).1 = (answerData net hrn r w').1)) := by
  refine ⟨fun w => ⟨fun r hr => ?_, fun r hr => ?_, fun r hr => ?_, fun r hr => ?_⟩,
    fun w w' hw => ⟨fun r hr => ?_, fun r hr => ?_, fun r hr => ?_⟩⟩
  · unfold answerCatalog
    rw [hr, withUpdate_of_ne (by decide)]
    exact getCatalog_sends_nothing net hrn _ rfl w
  · unfold answerCatalogMetadataVersion
    rw [hr, withUpdate_of_ne (by decide)]
    exact getLatestCatalogVersion_sends_nothing net hrn _ rfl w
  · unfold answerPartitions
    rw [hr, withUpdate_of_ne (by decide)]
    exact getPartitions_sends_nothing net hrn _ rfl w
  · exact answerData_cacheOnly net hrn r hr w
  · unfold answerCatalog
    rw [hr, withUpdate_of_ne (by decide)]
    exact (getCatalog_alike net hrn _ rfl w w' hw).1
  · unfold answerPartitions
    rw [hr, withUpdate_of_ne (by decide)]
    exact (getPartitions_alike net hrn _ rfl w w' hw).1
  · exact answerData_onlineOnly net hrn r hr w w' hw

/-- A network that knows one catalog. -/
def oneCatalog (catalog : Catalog) : Network
  | .lookupApiClient service _ => .ok service
  | .getCatalog _ _ => .ok catalog
  | .getLatestCatalogVersion _ _ _ => .ok 1
  | .getLayerVersions _ _ _ => .ok []
  | .getPartitions _ _ _ _ => .ok []
  | .getPartitionsbyId _ _ _ _ _ => .ok []
  | .getBlob _ _ _ _ _ => .ok []

/-- An older catalog in the cache is answered with `CacheOnly`, without a request, and is not
seen with `OnlineOnly`. -/
theorem cached_catalog_ignored :
    let older : Catalog := ⟨[], ['1']⟩
    let newer : Catalog := ⟨[], ['2']⟩
    let cached : World := (CatalogCacheRepository.put ['h'] older SortedMap.empty, [])
    let empty : World := (SortedMap.empty, [])
    (answerCatalog (oneCatalog newer) ['h'] ⟨none, .cacheOnly⟩ cached).1.toOption = some older ∧
    (answerCatalog (oneCatalog newer) ['h'] ⟨none, .cacheOnly⟩ cached).2.2 = [] ∧
    Agree ['h'] cached.1 empty.1 ∧
    (answerCatalog (oneCatalog newer) ['h'] ⟨none, .onlineOnly⟩ cached).1 =
      (answerCatalog (oneCatalog newer) ['h'] ⟨none, .onlineOnly⟩ empty).1 ∧
    (answerCatalog (oneCatalog newer) ['h'] ⟨none, .onlineOnly⟩ empty).1.toOption =
      some newer := by
  intro older newer cached empty
  have hagree : Agree ['h'] cached.1 empty.1 := fun key hkey =>
    (agree_of_onlyWrites (OnlyWrites.insert (kindOf_catalog ['h']) _ SortedMap.empty)
      (by decide) (by decide) key hkey).symm
  obtain ⟨hoffline, honline⟩ := fetch_option_respected (oneCatalog newer) ['h']
  exact ⟨rfl, (hoffline cached).1 ⟨none, .cacheOnly⟩ rfl, hagree,
    (honline cached empty hagree).1 ⟨none, .onlineOnly⟩ rfl, rfl⟩

end Client

end OlpEdgeSdk.Analysis.FetchOptions

import OlpEdgeSdk.Analysis.PartitionRequests

/-!
# Requests for data

What a request for data leaves in the cache and what a `CacheOnly` request delivers, where the
network answers every request with success. Data is named by a data handle, or by a partition
whose data handle holds the data or names it.

SOURCE: DataRepository.cpp
-/

set_option autoImplicit false

namespace OlpEdgeSdk.Analysis.DataRequests

open OlpEdgeSdk.Base OlpEdgeSdk.Model OlpEdgeSdk.Analysis.CacheKeys
open OlpEdgeSdk.Analysis.PartitionRequests

/-! ## What is cached and what is held -/

section Data

variable (a : Answers) (hrn : List Char)

/-- The request for the partition that names the data. -/
def partitionRequest (r : DataRequest) (version : Option ℤ) : PartitionsRequest :=
  ⟨r.layerId, version, r.billingTag, r.fetchOption⟩

/-- The data of a data handle that is cached. A layer of another type has no data. -/
def cachedBlob (r : DataRequest) (layerType dataHandle : List Char) (s : Store) :
    Option (List Char) :=
  (DataRepository.blobService layerType).bind fun _ =>
    DataCacheRepository.get hrn r.layerId dataHandle s

/-- What a partition leads to: its data handle holds the data, or names it. -/
def contentOf (blob : List Char → Option (List Char)) (p : Partition) : Option (List Char) :=
  if DataRepository.isInlineData p.dataHandle then some p.dataHandle else blob p.dataHandle

/-- The data of a partition that is cached. -/
def cachedContent (r : DataRequest) (layerType id : List Char) (version : Option ℤ)
    (s : Store) : Option (List Char) :=
  (cachedPartition hrn (partitionRequest r version) id s).bind
    (contentOf fun dataHandle => cachedBlob hrn r layerType dataHandle s)

/-- The data that is cached for a request. -/
def cachedData (r : DataRequest) (s : Store) : Option (List Char) :=
  (CatalogCacheRepository.get hrn s).bind fun catalog =>
    (layer? catalog r.layerId).bind fun layer =>
      match r.dataHandle with
      | some dataHandle => cachedBlob hrn r layer.layerType dataHandle s
      | none => r.partitionId.bind fun id =>
        (cachedVersion hrn (partitionRequest r r.version) s).bind fun version =>
          cachedContent hrn r layer.layerType id version s

/-- The data of a data handle that a request leaves in the cache: what was cached, or else, if
it is fetched, the network's. -/
def heldBlob (r : DataRequest) (layerType dataHandle : List Char) (fetched : Bool) (s : Store) :
    Option (List Char) :=
  (DataRepository.blobService layerType).bind fun service =>
    (DataCacheRepository.get hrn r.layerId dataHandle s).or
      (if fetched then
        some (a.blob service (serviceUrl a hrn service.name s) r.layerId dataHandle r.billingTag)
      else none)

/-- The partitions that are delivered for one id. -/
def partitionsOf (r : PartitionsRequest) (id : List Char) (s : Store) : List Partition :=
  match cachedPartition hrn r id s with
  | some p => [p]
  | none => a.partitionsById (serviceUrl a hrn "query".toList s) r.layerId [id] r.version
      r.billingTag

/-- The data of a partition that a request leaves in the cache. It is fetched if the partition
is the only one that is delivered. -/
def heldContent (r : DataRequest) (layerType id : List Char) (version : Option ℤ) (s : Store) :
    Option (List Char) :=
  let delivered := partitionsOf a hrn (partitionRequest r version) id s
  ((cachedPartition hrn (partitionRequest r version) id s).or (keptAt delivered id)).bind
    (contentOf fun dataHandle =>
      heldBlob a hrn r layerType dataHandle (delivered.length = 1) s)

/-- The data that a request leaves in the cache. -/
def heldData (r : DataRequest) (s : Store) : Option (List Char) :=
  (layer? (catalogOf a hrn r.fetchOption r.billingTag s) r.layerId).bind fun layer =>
    match r.dataHandle with
    | some dataHandle => heldBlob a hrn r layer.layerType dataHandle true s
    | none => r.partitionId.bind fun id =>
      (versionOf a hrn (partitionRequest r r.version) s).bind fun version =>
        heldContent a hrn r layer.layerType id version s

/-- A callback that only replies, unless access was denied. -/
def Replies (callback : Response Data → DataRepository.DataProgram) : Prop :=
  ∀ response, (∀ error, response = .error error → error.httpStatusCode ≠ 403) →
    callback response = .reply response

theorem replies_verifyResponseCallback (r : DataRequest) (partitionId : List Char) :
    Replies (DataRepository.verifyResponseCallback hrn r partitionId) := by
  intro response hresponse
  unfold DataRepository.verifyResponseCallback
  split
  · rw [if_neg (hresponse _ rfl)]
  · rfl

theorem getDataInternal_holds (layerType dataHandle : List Char) {r : DataRequest}
    (hr : r.fetchOption = .onlineIfNotFound) (hhandle : r.dataHandle = some dataHandle)
    {callback : Response Data → DataRepository.DataProgram} (hcallback : Replies callback)
    (w : World) :
    ∃ response w', (DataRepository.getDataInternal hrn layerType r callback).eval
        (DataRepository.handle a.network hrn) w = (response, w') ∧
      Updates a hrn [.url, .data] w.1 w'.1 ∧
      cachedBlob hrn r layerType dataHandle w'.1 =
        heldBlob a hrn r layerType dataHandle true w.1 := by
  unfold DataRepository.getDataInternal cachedBlob heldBlob
  rw [hhandle, Option.getD_some]
  dsimp only
  cases DataRepository.blobService layerType with
  | none =>
    dsimp only
    rw [hcallback _ (by rintro error ⟨⟩; decide)]
    exact ⟨_, w, rfl, .refl w.1, rfl⟩
  | some service =>
    dsimp only [Option.bind_some]
    rw [Program.eval_executeOrCancelled, hr]
    cases hget : DataCacheRepository.get hrn r.layerId dataHandle w.1 with
    | some data =>
      have hseen : seen .onlineIfNotFound ((DataCacheRepository.get hrn r.layerId dataHandle
          w.1).map some) = some (some data) := by
        rw [hget]
        rfl
      rw [eval_checkCache_of_seen hseen, hcallback _ (by nofun)]
      exact ⟨_, w, rfl, .refl w.1, hget⟩
    | none =>
      have hseen : seen .onlineIfNotFound ((DataCacheRepository.get hrn r.layerId dataHandle
          w.1).map some) = none := by
        rw [hget]
        rfl
      obtain ⟨w₁, hurl, hw₁⟩ := getApiClient_answers a hrn service.name w
      replace hurl : DataRepository.handle a.network hrn
        (.getApiClient service.name serviceVersion) w = _ := hurl
      have hreply (data : List Char) : callback (.ok (some data)) = .reply (.ok (some data)) :=
        hcallback _ (by nofun)
      rw [eval_checkCache_of_not_seen (by decide) hseen, Program.eval_request, hurl]
      refine ⟨_, (DataCacheRepository.put hrn _ r.layerId dataHandle w₁.1, _),
        congrArg (fun program => Program.eval _ program _) (hreply _), ?_, ?_⟩
      · exact hw₁.andThen (OnlyWrites.insert (kindOf_data hrn r.layerId dataHandle) _ w₁.1)
          (by decide)
      · exact data_put hrn _ r.layerId dataHandle w₁.1

theorem allCached_singleton (r : PartitionsRequest) (id : List Char) (s : Store) :
    PartitionsRepository.allCached hrn r [id] s =
      (cachedPartition hrn r id s).map fun p => [p] := by
  unfold PartitionsRepository.allCached
  rw [getByIds_eq]
  cases hcached : cachedPartition hrn r id s with
  | none => simp [hcached]
  | some p => simp [hcached]

theorem fetchPartitionsById_online (r : PartitionsRequest) (id : List Char) (expiry : Option ℤ)
    (w : World) :
    ∃ w', (PartitionsRepository.fetchPartitionsById hrn .onlineIfNotFound [id] r expiry).eval
        (PartitionsRepository.handle a.network hrn) w =
        (.ok (partitionsOf a hrn r id w.1), w') ∧
      Updates a hrn [.url, .partitions] w.1 w'.1 ∧
      cachedPartition hrn r id w'.1 =
        (cachedPartition hrn r id w.1).or (keptAt (partitionsOf a hrn r id w.1) id) := by
  unfold PartitionsRepository.fetchPartitionsById partitionsOf
  rw [Program.eval_executeOrCancelled]
  have hseen : seen .onlineIfNotFound (PartitionsRepository.allCached hrn r [id] w.1) =
      (cachedPartition hrn r id w.1).map fun p => [p] := allCached_singleton hrn r id w.1
  cases hcached : cachedPartition hrn r id w.1 with
  | some p =>
    rw [hcached] at hseen
    exact ⟨w, eval_checkCache_of_seen hseen, .refl w.1, hcached⟩
  | none =>
    rw [hcached] at hseen
    obtain ⟨w₁, hurl, hw₁⟩ := getApiClient_answers a hrn "query".toList w
    replace hurl : PartitionsRepository.handle a.network hrn
      (.getApiClient "query".toList serviceVersion) w = _ := hurl
    rw [eval_checkCache_of_not_seen (by decide) hseen, Program.eval_request, hurl]
    refine ⟨(PartitionsCacheRepository.put hrn r _ expiry false w₁.1, _), rfl, ?_, ?_⟩
    · exact hw₁.andThen (onlyWrites_put hrn r _ expiry false w₁.1) (by decide)
    · dsimp only
      rw [cachedPartition_put, hw₁.only.cachedPartition hrn (by decide), hcached, Option.or_none,
        Option.none_or]

theorem catalogOf_of_cached {fetchOption : FetchOptions} {billingTag : Option (List Char)}
    {kinds : List Kind} {s s' : Store} (h : Updates a hrn kinds s s')
    (hget : CatalogCacheRepository.get hrn s' = some (catalogOf a hrn fetchOption billingTag s)) :
    catalogOf a hrn fetchOption billingTag s' = catalogOf a hrn fetchOption billingTag s := by
  rw [catalogOf, hget, h.urls]
  unfold catalogOf seen
  split
  · rfl
  · rfl

theorem versionOf_of_cached {r : PartitionsRequest} {kinds : List Kind} {s s' : Store}
    (h : Updates a hrn kinds s s') (hget : CatalogCacheRepository.get hrn s' =
      some (catalogOf a hrn r.fetchOption r.billingTag s)) :
    versionOf a hrn r s' = versionOf a hrn r s := by
  unfold versionOf latestVersion
  rw [catalogOf_of_cached a hrn h hget, h.urls]

theorem partitionsOf_of_updates {kinds : List Kind} {s s' : Store} (h : Updates a hrn kinds s s')
    (hkind : .partitions ∉ kinds) (r : PartitionsRequest) (id : List Char) :
    partitionsOf a hrn r id s' = partitionsOf a hrn r id s := by
  unfold partitionsOf
  rw [h.only.cachedPartition hrn hkind, h.urls]

theorem heldBlob_of_updates {kinds : List Kind} {s s' : Store} (h : Updates a hrn kinds s s')
    (hkind : .data ∉ kinds) (r : DataRequest) (layerType dataHandle : List Char)
    (fetched : Bool) :
    heldBlob a hrn r layerType dataHandle fetched s' =
      heldBlob a hrn r layerType dataHandle fetched s := by
  unfold heldBlob
  rw [h.only.data hkind]
  simp only [h.urls]

theorem getPartitionsById_online {r : PartitionsRequest} (hr : r.fetchOption = .onlineIfNotFound)
    (id : List Char) (w : World) {version : Option ℤ}
    (hversion : versionOf a hrn r w.1 = some version) :
    ∃ w', (PartitionsRepository.getPartitionsById hrn r [id]).eval
        (PartitionsRepository.handle a.network hrn) w =
        (.ok (partitionsOf a hrn { r with version := version } id w.1), w') ∧
      Updates a hrn [.url, .catalog, .version, .partitions] w.1 w'.1 ∧
      CatalogCacheRepository.get hrn w'.1 =
        some (catalogOf a hrn r.fetchOption r.billingTag w.1) ∧
      cachedVersion hrn r w'.1 = some version ∧
      cachedPartition hrn { r with version := version } id w'.1 =
        (cachedPartition hrn { r with version := version } id w.1).or
          (keptAt (partitionsOf a hrn { r with version := version } id w.1) id) := by
  obtain ⟨w₁, expiry, hw₁, hget, hcached, heval⟩ := append_online a hrn
    (by rw [hr]; decide) (PartitionsRepository.fetchPartitionsById hrn .onlineIfNotFound [id]) w
  rw [hversion] at hcached heval
  dsimp only at heval
  obtain ⟨w₂, heval₂, hw₂, hpartition⟩ := fetchPartitionsById_online a hrn
    { r with version := version } id expiry w₁
  rw [partitionsOf_of_updates a hrn hw₁ (by decide)] at heval₂ hpartition
  rw [hw₁.only.cachedPartition hrn (by decide)] at hpartition
  have hprogram : PartitionsRepository.getPartitionsById hrn r [id] =
      PartitionsRepository.appendPartitionsRequest r
        (PartitionsRepository.fetchPartitionsById hrn .onlineIfNotFound [id]) := by
    rw [PartitionsRepository.getPartitionsById, hr]
  rw [hprogram, heval]
  refine ⟨w₂, heval₂, (hw₁.mono (by simp)).trans (hw₂.mono (by simp)), ?_, ?_, hpartition⟩
  · exact (hw₂.only.catalog (by decide)).trans hget
  · exact (cachedVersion_of_onlyWrites hrn hw₂.only (by decide) (by decide) r).trans hcached

/-- The data of a partition is fetched if the partition is the only one delivered. -/
theorem getPartitionsCallback_holds (layerType id : List Char) {r : DataRequest}
    (hr : r.fetchOption = .onlineIfNotFound) (delivered : List Partition) (w : World) :
    ∃ response w', (DataRepository.getPartitionsCallback hrn layerType r id (.ok delivered)).eval
        (DataRepository.handle a.network hrn) w = (response, w') ∧
      Updates a hrn [.url, .data] w.1 w'.1 ∧
      ∀ p, (delivered.length = 1 → delivered = [p]) →
        contentOf (fun dataHandle => cachedBlob hrn r layerType dataHandle w'.1) p =
          contentOf (fun dataHandle =>
            heldBlob a hrn r layerType dataHandle (delivered.length = 1) w.1) p := by
  have hkeeps : delivered.length ≠ 1 → ∀ dataHandle, cachedBlob hrn r layerType dataHandle w.1 =
      heldBlob a hrn r layerType dataHandle (delivered.length = 1) w.1 := by
    intro hlength dataHandle
    simp [cachedBlob, heldBlob, hlength]
  match delivered with
  | [] => exact ⟨_, w, rfl, .refl w.1, fun p _ => by simp only [hkeeps (by simp)]⟩
  | [q] =>
    unfold DataRepository.getPartitionsCallback contentOf
    dsimp only
    by_cases hinline : DataRepository.isInlineData q.dataHandle = true
    · rw [if_pos hinline]
      refine ⟨_, w, rfl, .refl w.1, fun p hp => ?_⟩
      obtain rfl : q = p := List.singleton_injective (hp rfl)
      rw [if_pos hinline, if_pos hinline]
    · rw [if_neg hinline]
      obtain ⟨response, w', heval, hw', hblob⟩ := getDataInternal_holds a hrn layerType q.dataHandle
        (r := { r with dataHandle := some q.dataHandle }) hr rfl
        (replies_verifyResponseCallback hrn _ id) w
      refine ⟨response, w', heval, hw', fun p hp => ?_⟩
      obtain rfl : q = p := List.singleton_injective (hp rfl)
      rw [if_neg hinline, if_neg hinline]
      exact hblob
  | _ :: _ :: _ => exact ⟨_, w, rfl, .refl w.1, fun p _ => by simp only [hkeeps (by simp)]⟩

theorem heldContent_of_updates {kinds : List Kind} {s s' : Store} (h : Updates a hrn kinds s s')
    (hpartitions : .partitions ∉ kinds) (hdata : .data ∉ kinds) (r : DataRequest)
    (layerType id : List Char) (version : Option ℤ) :
    heldContent a hrn r layerType id version s' = heldContent a hrn r layerType id version s := by
  unfold heldContent
  simp only [partitionsOf_of_updates a hrn h hpartitions, h.only.cachedPartition hrn hpartitions,
    heldBlob_of_updates a hrn h hdata]

/-- If one partition is delivered, it is the one that is cached. -/
theorem eq_singleton_of_held {r : PartitionsRequest} {id : List Char} {s : Store} {p : Partition}
    (hp : (cachedPartition hrn r id s).or (keptAt (partitionsOf a hrn r id s) id) = some p)
    (hlength : (partitionsOf a hrn r id s).length = 1) : partitionsOf a hrn r id s = [p] := by
  obtain ⟨q, hq⟩ := List.length_eq_one_iff.mp hlength
  cases hcached : cachedPartition hrn r id s with
  | some p' =>
    rw [hcached] at hp
    cases hp
    rw [partitionsOf, hcached]
  | none =>
    rw [hcached, Option.none_or] at hp
    have hmem := mem_of_keptAt hp
    rw [hq, List.mem_singleton] at hmem
    rw [hq, hmem]

/-- A request by partition id, after the catalog was looked at. -/
theorem getDataByPartition_holds (layerType id : List Char) {r : DataRequest}
    (hr : r.fetchOption = .onlineIfNotFound) (w : World) {version : Option ℤ}
    (hversion : versionOf a hrn (partitionRequest r r.version) w.1 = some version) :
    ∃ response w', (Program.request (.getPartitionsById (partitionRequest r r.version) [id])
        (DataRepository.getPartitionsCallback hrn layerType r id)).eval
        (DataRepository.handle a.network hrn) w = (response, w') ∧
      CatalogCacheRepository.get hrn w'.1 =
        some (catalogOf a hrn r.fetchOption r.billingTag w.1) ∧
      cachedVersion hrn (partitionRequest r r.version) w'.1 = some version ∧
      cachedContent hrn r layerType id version w'.1 =
        heldContent a hrn r layerType id version w.1 := by
  obtain ⟨w₁, heval₁, hw₁, hget₁, hversion₁, hpartition₁⟩ := getPartitionsById_online a hrn
    (r := partitionRequest r r.version) hr id w hversion
  obtain ⟨response, w₂, heval₂, hw₂, hcontent⟩ := getPartitionsCallback_holds a hrn layerType id
    hr (partitionsOf a hrn (partitionRequest r version) id w.1) w₁
  replace heval₁ : DataRepository.handle a.network hrn
    (.getPartitionsById (partitionRequest r r.version) [id]) w = _ := heval₁
  rw [Program.eval_request, heval₁]
  refine ⟨response, w₂, heval₂, (hw₂.only.catalog (by decide)).trans hget₁, ?_, ?_⟩
  · exact (cachedVersion_of_onlyWrites hrn hw₂.only (by decide) (by decide) _).trans hversion₁
  · have hpartition : cachedPartition hrn (partitionRequest r version) id w₂.1 = _ :=
      (hw₂.only.cachedPartition hrn (by decide) _ id).trans hpartition₁
    unfold cachedContent heldContent
    rw [hpartition]
    refine Option.bind_congr fun p hp => ?_
    rw [hcontent p ?_]
    · simp only [heldBlob_of_updates a hrn hw₁ (by decide)]
    · exact eq_singleton_of_held a hrn hp

end Data

section GetData

variable {Rest : Type} {hrn : List Char}
  {handle : (op : DataRepository.Op) → Store × Rest → op.Answer × Store × Rest} {r : DataRequest}
  {w w₁ : Store × Rest} {catalog : Catalog} {layer : Layer}

theorem eval_getData_error {error : ApiError}
    (hcatalog : handle (.getCatalog ⟨r.billingTag, r.fetchOption⟩) w = (.error error, w₁)) :
    (DataRepository.getData hrn r).eval handle w = (.error error, w₁) := by
  unfold DataRepository.getData
  rw [Program.eval_executeOrCancelled, Program.eval_request, hcatalog]
  rfl

variable (hcatalog : handle (.getCatalog ⟨r.billingTag, r.fetchOption⟩) w = (.ok catalog, w₁))
include hcatalog

theorem eval_getData_no_layer (hlayer : layer? catalog r.layerId = none) :
    (DataRepository.getData hrn r).eval handle w = (.error layerDoesNotExist, w₁) := by
  unfold layer? at hlayer
  unfold DataRepository.getData
  rw [Program.eval_executeOrCancelled, Program.eval_request, hcatalog]
  dsimp only
  rw [hlayer]
  rfl

variable (hlayer : layer? catalog r.layerId = some layer)
include hlayer

theorem eval_getData_handle {dataHandle : List Char} (hhandle : r.dataHandle = some dataHandle) :
    (DataRepository.getData hrn r).eval handle w =
      (DataRepository.getDataInternal hrn layer.layerType r .reply).eval handle w₁ := by
  unfold layer? at hlayer
  unfold DataRepository.getData
  rw [Program.eval_executeOrCancelled, Program.eval_request, hcatalog]
  dsimp only
  rw [hlayer]
  dsimp only
  rw [hhandle]

theorem eval_getData_partition {id : List Char} (hhandle : r.dataHandle = none)
    (hid : r.partitionId = some id) :
    (DataRepository.getData hrn r).eval handle w =
      (Program.request (.getPartitionsById (partitionRequest r r.version) [id])
        (DataRepository.getPartitionsCallback hrn layer.layerType r id)).eval handle w₁ := by
  unfold layer? at hlayer
  unfold DataRepository.getData
  rw [Program.eval_executeOrCancelled, Program.eval_request, hcatalog]
  dsimp only
  rw [hlayer]
  dsimp only
  rw [hhandle, hid]
  rfl

end GetData

theorem exists_partitionId {r : DataRequest} (hnamed : DataRepository.rejected r = none)
    (hhandle : r.dataHandle = none) : ∃ id, r.partitionId = some id := by
  unfold DataRepository.rejected at hnamed
  cases hid : r.partitionId with
  | some id => exact ⟨id, rfl⟩
  | none => simp [hhandle, hid] at hnamed

section GetDataAnswers

variable (a : Answers) (hrn : List Char)

theorem getData_holds {r : DataRequest} (hr : r.fetchOption = .onlineIfNotFound)
    (hnamed : DataRepository.rejected r = none) (w : World) :
    cachedData hrn r ((DataRepository.getData hrn r).eval
      (DataRepository.handle a.network hrn) w).2.1 = heldData a hrn r w.1 := by
  have hfetch : r.fetchOption ≠ .cacheOnly := by rw [hr]; decide
  obtain ⟨w₁, hcatalog, hw₁, hget⟩ := getCatalog_answers a hrn ⟨r.billingTag, r.fetchOption⟩
    hfetch w
  replace hcatalog : DataRepository.handle a.network hrn
    (.getCatalog ⟨r.billingTag, r.fetchOption⟩) w = _ := hcatalog
  dsimp only at hcatalog hget
  unfold heldData cachedData
  cases hlayer : layer? (catalogOf a hrn r.fetchOption r.billingTag w.1) r.layerId with
  | none =>
    rw [eval_getData_no_layer hcatalog hlayer]
    dsimp only
    rw [hget, Option.bind_some, hlayer]
    rfl
  | some layer =>
    rw [Option.bind_some]
    cases hhandle : r.dataHandle with
    | some dataHandle =>
      obtain ⟨response, w₂, heval, hw₂, hblob⟩ := getDataInternal_holds a hrn layer.layerType
        dataHandle hr hhandle (fun _ _ => rfl) w₁
      rw [eval_getData_handle hcatalog hlayer hhandle, heval]
      dsimp only
      rw [hw₂.only.catalog (by decide), hget, Option.bind_some, hlayer, Option.bind_some, hblob,
        heldBlob_of_updates a hrn hw₁ (by decide)]
    | none =>
      obtain ⟨id, hid⟩ := exists_partitionId hnamed hhandle
      obtain ⟨version, hsettle⟩ := exists_settle layer r.version
        (latestVersion a hrn r.billingTag w.1)
      have hversion : versionOf a hrn (partitionRequest r r.version) w.1 = some version := by
        unfold versionOf partitionRequest
        rw [hlayer]
        exact hsettle
      -- `GetPartitionsById` looks at the catalog again and finds the one just cached
      have hversion₁ := (versionOf_of_cached (r := partitionRequest r r.version) a hrn hw₁
        hget).trans hversion
      obtain ⟨response, w₂, heval, hget₂, hcached, hcontent⟩ := getDataByPartition_holds a hrn
        layer.layerType id hr w₁ hversion₁
      rw [catalogOf_of_cached a hrn hw₁ hget] at hget₂
      rw [eval_getData_partition hcatalog hlayer hhandle hid, heval, hid, hversion]
      dsimp only
      rw [hget₂, Option.bind_some, hlayer, Option.bind_some, Option.bind_some, Option.bind_some,
        hcached, Option.bind_some, Option.bind_some, hcontent,
        heldContent_of_updates a hrn hw₁ (by decide) (by decide)]

theorem getDataInternal_cacheOnly (layerType dataHandle : List Char) {r : DataRequest}
    (hr : r.fetchOption = .cacheOnly) (hhandle : r.dataHandle = some dataHandle)
    {callback : Response Data → DataRepository.DataProgram} (hcallback : Replies callback)
    (w : World) :
    AnswersFromCache ((cachedBlob hrn r layerType dataHandle w.1).map some)
      (DataRepository.blobService layerType = none)
      ((DataRepository.getDataInternal hrn layerType r callback).eval
        (DataRepository.handle a.network hrn) w) w := by
  unfold DataRepository.getDataInternal cachedBlob
  rw [hhandle, Option.getD_some]
  dsimp only
  cases DataRepository.blobService layerType with
  | none =>
    dsimp only
    rw [hcallback _ (by rintro error ⟨⟩; decide)]
    exact ⟨_, rfl, Or.inr rfl⟩
  | some service =>
    dsimp only [Option.bind_some]
    rw [Program.eval_executeOrCancelled, hr]
    cases hget : (DataCacheRepository.get hrn r.layerId dataHandle w.1).map some with
    | some data =>
      have hseen : seen .cacheOnly ((DataCacheRepository.get hrn r.layerId dataHandle
        w.1).map some) = some data := hget
      rw [eval_checkCache_of_seen hseen, hcallback _ (by nofun)]
      rfl
    | none =>
      rw [eval_checkCache_cacheOnly hget, hcallback _ (by rintro error ⟨⟩; decide)]
      exact ⟨_, rfl, Or.inl rfl⟩

theorem fetchPartitionsById_cacheOnly (r : PartitionsRequest) (id : List Char)
    (expiry : Option ℤ) (w : World) :
    AnswersFromCache ((cachedPartition hrn r id w.1).map fun p => [p]) False
      ((PartitionsRepository.fetchPartitionsById hrn .cacheOnly [id] r expiry).eval
        (PartitionsRepository.handle a.network hrn) w) w := by
  unfold PartitionsRepository.fetchPartitionsById
  rw [Program.eval_executeOrCancelled, ← allCached_singleton]
  cases hget : PartitionsRepository.allCached hrn r [id] w.1 with
  | some partitions => exact eval_checkCache_of_seen hget
  | none => exact ⟨_, eval_checkCache_cacheOnly hget, Or.inl rfl⟩

theorem getPartitionsById_cacheOnly {r : PartitionsRequest} (hr : r.fetchOption = .cacheOnly)
    (id : List Char) (w : World) :
    AnswersFromCache ((cachedVersion hrn r w.1).bind fun version =>
        (cachedPartition hrn { r with version := version } id w.1).map fun p => [p])
      (LacksLayer hrn r.layerId w.1)
      ((PartitionsRepository.getPartitionsById hrn r [id]).eval
        (PartitionsRepository.handle a.network hrn) w) w := by
  have happend := append_cacheOnly a hrn hr
    (PartitionsRepository.fetchPartitionsById hrn .cacheOnly [id]) w
  unfold PartitionsRepository.getPartitionsById
  rw [hr]
  cases hversion : cachedVersion hrn r w.1 with
  | none =>
    rw [hversion] at happend
    exact happend
  | some version =>
    rw [hversion] at happend
    obtain ⟨expiry, happend⟩ := happend
    rw [happend, Option.bind_some]
    exact (fetchPartitionsById_cacheOnly a hrn _ id expiry w).mono False.elim

/-- Only versioned and volatile layers have data, so a layer without has no versions. -/
theorem settle_of_no_service {layer : Layer}
    (hservice : DataRepository.blobService layer.layerType = none) (version latest : Option ℤ) :
    settle layer version latest = some none := by
  refine if_pos fun htype => ?_
  rw [DataRepository.blobService, if_pos htype] at hservice
  exact nomatch hservice

/-- The content of a cached partition is delivered. If the layer has no data, nothing is held
either. -/
theorem getPartitionsCallback_cacheOnly (layerType id : List Char) {r : DataRequest}
    (hr : r.fetchOption = .cacheOnly) (p : Partition) (w : World) :
    AnswersFromCache
      ((contentOf (fun dataHandle => cachedBlob hrn r layerType dataHandle w.1) p).map some)
      (DataRepository.blobService layerType = none ∧
        DataRepository.isInlineData p.dataHandle = false)
      ((DataRepository.getPartitionsCallback hrn layerType r id (.ok [p])).eval
        (DataRepository.handle a.network hrn) w) w := by
  unfold DataRepository.getPartitionsCallback contentOf
  dsimp only
  cases hinline : DataRepository.isInlineData p.dataHandle with
  | true => rfl
  | false =>
    have hdata := getDataInternal_cacheOnly a hrn layerType p.dataHandle
      (r := { r with dataHandle := some p.dataHandle }) hr rfl
      (replies_verifyResponseCallback hrn { r with dataHandle := some p.dataHandle } id) w
    exact hdata.mono fun hservice => ⟨hservice, rfl⟩

/-- A request by partition id that stays in the cache, after the catalog was looked at. -/
theorem getDataByPartition_cacheOnly (id : List Char) {r : DataRequest}
    (hr : r.fetchOption = .cacheOnly) {catalog : Catalog} {layer : Layer} {w : World}
    (hget : CatalogCacheRepository.get hrn w.1 = some catalog)
    (hlayer : layer? catalog r.layerId = some layer) :
    let update := { r with fetchOption := .onlineIfNotFound }
    AnswersFromCache
      (((cachedVersion hrn (partitionRequest r r.version) w.1).bind fun version =>
        cachedContent hrn r layer.layerType id version w.1).map some)
      (((versionOf a hrn (partitionRequest update r.version) w.1).bind fun version =>
        heldContent a hrn update layer.layerType id version w.1) = none)
      ((Program.request (.getPartitionsById (partitionRequest r r.version) [id])
        (DataRepository.getPartitionsCallback hrn layer.layerType r id)).eval
        (DataRepository.handle a.network hrn) w) w := by
  intro update
  have hlacks : ¬LacksLayer hrn r.layerId w.1 := by
    rintro ⟨catalog', hget', hnone⟩
    rw [hget] at hget'
    cases hget'
    exact nomatch hlayer.symm.trans hnone
  have hpartition : AnswersFromCache
      ((cachedVersion hrn (partitionRequest r r.version) w.1).bind fun version =>
        (cachedPartition hrn (partitionRequest r version) id w.1).map fun p => [p])
      (LacksLayer hrn r.layerId w.1)
      (DataRepository.handle a.network hrn
        (.getPartitionsById (partitionRequest r r.version) [id]) w) w :=
    getPartitionsById_cacheOnly a hrn (r := partitionRequest r r.version) hr id w
  rw [Program.eval_request]
  cases hversion : cachedVersion hrn (partitionRequest r r.version) w.1 with
  | none =>
    rw [hversion] at hpartition
    obtain ⟨error, heval, herror⟩ := hpartition
    rw [heval]
    exact ⟨error, rfl, Or.inl (herror.resolve_right hlacks)⟩
  | some version =>
    rw [hversion, Option.bind_some] at hpartition
    unfold cachedContent
    rw [Option.bind_some]
    cases hcached : cachedPartition hrn (partitionRequest r version) id w.1 with
    | none =>
      rw [hcached] at hpartition
      obtain ⟨error, heval, herror⟩ := hpartition
      rw [heval]
      exact ⟨error, rfl, Or.inl (herror.resolve_right hlacks)⟩
    | some p =>
      rw [hcached] at hpartition
      replace hpartition : DataRepository.handle a.network hrn
        (.getPartitionsById (partitionRequest r r.version) [id]) w = (.ok [p], w) := hpartition
      rw [hpartition, Option.bind_some]
      refine (getPartitionsCallback_cacheOnly a hrn layer.layerType id hr p w).mono ?_
      rintro ⟨hservice, hinline⟩
      -- the layer is not versioned, so the update is settled to the same partition
      have hnone : version = none := by
        unfold cachedVersion partitionRequest at hversion
        rw [hget, Option.bind_some, hlayer, Option.bind_some, settle_of_no_service hservice]
          at hversion
        exact (Option.some.inj hversion).symm
      have hupdate : versionOf a hrn (partitionRequest update r.version) w.1 = some version := by
        unfold versionOf partitionRequest
        dsimp only [update]
        rw [catalogOf_of_get hget, hlayer, Option.bind_some, settle_of_no_service hservice, hnone]
      have hheld : cachedPartition hrn (partitionRequest update version) id w.1 = some p := hcached
      rw [hupdate, Option.bind_some, heldContent, hheld, Option.some_or, Option.bind_some,
        contentOf, hinline, heldBlob, hservice]
      rfl

theorem getData_cacheOnly {r : DataRequest} (hr : r.fetchOption = .cacheOnly)
    (hnamed : DataRepository.rejected r = none) (w : World) :
    AnswersFromCache ((cachedData hrn r w.1).map some)
      (heldData a hrn { r with fetchOption := .onlineIfNotFound } w.1 = none)
      ((DataRepository.getData hrn r).eval (DataRepository.handle a.network hrn) w) w := by
  have hcatalog := getCatalog_cacheOnly a hrn r.billingTag w
  rw [← hr] at hcatalog
  unfold heldData cachedData
  dsimp only
  cases hget : CatalogCacheRepository.get hrn w.1 with
  | none =>
    rw [hget] at hcatalog
    obtain ⟨error, hcatalog, herror⟩ := hcatalog
    replace hcatalog : DataRepository.handle a.network hrn
      (.getCatalog ⟨r.billingTag, r.fetchOption⟩) w = (.error error, w) := hcatalog
    exact ⟨error, eval_getData_error hcatalog, herror.imp_right False.elim⟩
  | some catalog =>
    rw [hget] at hcatalog
    replace hcatalog : DataRepository.handle a.network hrn
      (.getCatalog ⟨r.billingTag, r.fetchOption⟩) w = (.ok catalog, w) := hcatalog
    rw [catalogOf_of_get hget, Option.bind_some]
    cases hlayer : layer? catalog r.layerId with
    | none => exact ⟨_, eval_getData_no_layer hcatalog hlayer, Or.inr rfl⟩
    | some layer =>
      rw [Option.bind_some, Option.bind_some]
      cases hhandle : r.dataHandle with
      | some dataHandle =>
        rw [eval_getData_handle hcatalog hlayer hhandle]
        refine (getDataInternal_cacheOnly a hrn layer.layerType dataHandle hr hhandle
          (fun _ _ => rfl) w).mono fun hservice => ?_
        dsimp only
        rw [heldBlob, hservice]
        rfl
      | none =>
        obtain ⟨id, hid⟩ := exists_partitionId hnamed hhandle
        rw [eval_getData_partition hcatalog hlayer hhandle hid, hid]
        exact getDataByPartition_cacheOnly a hrn id hr hget hlayer

end GetDataAnswers

end OlpEdgeSdk.Analysis.DataRequests

import OlpEdgeSdk.Analysis.CacheKeys
import OlpEdgeSdk.Model.CatalogClient

/-!
# Requests for catalogs and partitions

What a request is answered with and what it leaves in the cache, where the network answers
every request with success. A request that may use the network sees what is cached, unless its
fetch option is `OnlineOnly`, and fetches what it does not see; a `CacheOnly` request delivers
what is cached.

The version of a request for partitions is settled first, from the catalog and the latest
version; both are cached then.

SOURCE: ApiRepository.cpp, CatalogRepository.cpp, PartitionsRepository.cpp
-/

set_option autoImplicit false

namespace OlpEdgeSdk.Analysis.PartitionRequests

open OlpEdgeSdk.Base OlpEdgeSdk.Model OlpEdgeSdk.Analysis.CacheKeys

/-- What a network answers that answers every request with success. -/
structure Answers where
  serviceUrl : (service serviceVersion : List Char) → List Char
  catalog : (url : List Char) → (billingTag : Option (List Char)) → Catalog
  latestVersion : (url : List Char) → (startVersion : ℤ) → (billingTag : Option (List Char)) → ℤ
  layerVersions : (url : List Char) → (version : ℤ) → (billingTag : Option (List Char)) →
    List LayerVersion
  partitions : (url layerId : List Char) → (version : Option ℤ) →
    (billingTag : Option (List Char)) → List Partition
  partitionsById : (url layerId : List Char) → (partitions : List (List Char)) →
    (version : Option ℤ) → (billingTag : Option (List Char)) → List Partition
  blob : (service : BlobService) → (url layerId dataHandle : List Char) →
    (billingTag : Option (List Char)) → List Char

def Answers.network (a : Answers) : Network
  | .lookupApiClient service version => .ok (a.serviceUrl service version)
  | .getCatalog url tag => .ok (a.catalog url tag)
  | .getLatestCatalogVersion url start tag => .ok (a.latestVersion url start tag)
  | .getLayerVersions url version tag => .ok (a.layerVersions url version tag)
  | .getPartitions url layerId version tag => .ok (a.partitions url layerId version tag)
  | .getPartitionsbyId url layerId ids version tag =>
    .ok (a.partitionsById url layerId ids version tag)
  | .getBlob service url layerId handle tag => .ok (a.blob service url layerId handle tag)

/-! ## What a request leads to -/

section Definitions

variable (a : Answers) (hrn : List Char)

/-- What a fetch option lets a request see of the cache. -/
def seen {α : Type} (fetchOption : FetchOptions) (cached : Option α) : Option α :=
  if fetchOption = .onlineOnly then none else cached

def serviceUrl (service : List Char) (s : Store) : List Char :=
  (ApiCacheRepository.get hrn service serviceVersion s).getD (a.serviceUrl service serviceVersion)

def catalogOf (fetchOption : FetchOptions) (billingTag : Option (List Char)) (s : Store) :
    Catalog :=
  (seen fetchOption (CatalogCacheRepository.get hrn s)).getD
    (a.catalog (serviceUrl a hrn "config".toList s) billingTag)

def layer? (catalog : Catalog) (layerId : List Char) : Option Layer :=
  catalog.layers.find? fun layer => layer.id = layerId

def latestVersion (billingTag : Option (List Char)) (s : Store) : ℤ :=
  a.latestVersion (serviceUrl a hrn "metadata".toList s) (-1) billingTag

/-- The version a request for a layer is settled to: none if the layer is not versioned, else
the one asked for or the latest one. -/
def settle (layer : Layer) (version latest : Option ℤ) : Option (Option ℤ) :=
  if layer.layerType ≠ "versioned".toList then some none else (version.or latest).map some

/-- The version a request is settled to, if the layer exists. -/
def versionOf (r : PartitionsRequest) (s : Store) : Option (Option ℤ) :=
  (layer? (catalogOf a hrn r.fetchOption r.billingTag s) r.layerId).bind fun layer =>
    settle layer r.version (some (latestVersion a hrn r.billingTag s))

/-- The version a request is settled to from the cache alone. -/
def cachedVersion (r : PartitionsRequest) (s : Store) : Option (Option ℤ) :=
  (CatalogCacheRepository.get hrn s).bind fun catalog =>
    (layer? catalog r.layerId).bind fun layer =>
      settle layer r.version (CatalogCacheRepository.getVersion hrn s)

/-- The network's partitions of a layer, for a request with its version settled. The layer
versions may be cached. -/
def networkPartitions (r : PartitionsRequest) (s : Store) : Option (List Partition) :=
  let url := serviceUrl a hrn "metadata".toList s
  match r.version with
  | none => some (a.partitions url r.layerId none r.billingTag)
  | some version =>
    let layerVersions := (PartitionsCacheRepository.getLayerVersions hrn version s).getD
      (a.layerVersions url version r.billingTag)
    (layerVersions.find? fun layer => layer.layer = r.layerId).map fun layer =>
      a.partitions url r.layerId (some layer.version) r.billingTag

end Definitions

/-! ## Updates of the cache -/

/-- Only objects of some kinds are written, and no service gets another URL. -/
structure Updates (a : Answers) (hrn : List Char) (kinds : List Kind) (s s' : Store) : Prop where
  only : OnlyWrites kinds s s'
  urls : ∀ service, serviceUrl a hrn service s' = serviceUrl a hrn service s

namespace Updates

variable {a : Answers} {hrn : List Char} {kinds others : List Kind} {s s' s'' : Store}

theorem refl (s : Store) : Updates a hrn kinds s s := ⟨.refl s, fun _ => rfl⟩

theorem mono (h : Updates a hrn kinds s s') (hsub : kinds ⊆ others) :
    Updates a hrn others s s' :=
  ⟨h.only.mono hsub, h.urls⟩

theorem trans (h : Updates a hrn kinds s s') (h' : Updates a hrn kinds s' s'') :
    Updates a hrn kinds s s'' :=
  ⟨h.only.trans h'.only, fun service => (h'.urls service).trans (h.urls service)⟩

theorem of_only (h : OnlyWrites kinds s s') (hurl : .url ∉ kinds) : Updates a hrn kinds s s' := by
  refine ⟨h, fun service => ?_⟩
  unfold serviceUrl
  rw [h.url hurl]

/-- A write of another kind follows. -/
theorem andThen (h : Updates a hrn kinds s s') (h' : OnlyWrites others s' s'')
    (hurl : .url ∉ others) : Updates a hrn (kinds ++ others) s s'' :=
  (h.mono (List.subset_append_left kinds others)).trans
    ((of_only h' hurl).mono (List.subset_append_right kinds others))

end Updates

/-- A cached catalog is the one in use. -/
theorem catalogOf_of_get {a : Answers} {hrn : List Char} {catalog : Catalog} {s : Store}
    (hget : CatalogCacheRepository.get hrn s = some catalog) (billingTag : Option (List Char)) :
    catalogOf a hrn .onlineIfNotFound billingTag s = catalog := by
  rw [catalogOf, hget]
  rfl

/-! ## Requests that may use the network -/

section Online

variable (a : Answers) (hrn : List Char)

section CheckCache

variable {Op : Type} {Answer : Op → Type} {Reply Rest α : Type}
  {handle : (op : Op) → Store × Rest → Answer op × Store × Rest} {fetchOption : FetchOptions}
  {get : Store → Option α} {notFound : List Char}
  {callback : Response α → Program Op Answer Store Reply} {online : Program Op Answer Store Reply}
  {w : Store × Rest}

theorem eq_some_of_seen {cached : Option α} {x : α} (h : seen fetchOption cached = some x) :
    cached = some x := by
  unfold seen at h
  split at h
  · cases h
  · exact h

theorem eval_checkCache_of_seen {cached : α} (h : seen fetchOption (get w.1) = some cached) :
    (checkCache fetchOption get notFound callback online).eval handle w =
      (callback (.ok cached)).eval handle w := by
  unfold seen at h
  unfold checkCache
  split at h
  · cases h
  · rename_i hfetch
    rw [if_pos hfetch, Program.eval_read, h]
    rfl

theorem eval_checkCache_of_not_seen (hfetch : fetchOption ≠ .cacheOnly)
    (h : seen fetchOption (get w.1) = none) :
    (checkCache fetchOption get notFound callback online).eval handle w =
      online.eval handle w := by
  unfold seen at h
  unfold checkCache
  split at h
  · rename_i honline
    rw [if_neg (not_not.mpr honline)]
  · rename_i honline
    rw [if_pos honline, Program.eval_read, h]
    dsimp only
    rw [if_neg hfetch]

end CheckCache

theorem getApiClient_answers (service : List Char) (w : World) :
    ∃ w', (ApiRepository.getApiClient hrn service serviceVersion).eval a.network.handle w =
        (.ok (serviceUrl a hrn service w.1), w') ∧ Updates a hrn [.url] w.1 w'.1 := by
  unfold ApiRepository.getApiClient
  rw [Program.eval_read]
  cases hcached : ApiCacheRepository.get hrn service serviceVersion w.1 with
  | some url => exact ⟨w, by simp [serviceUrl, hcached], .refl w.1⟩
  | none =>
    refine ⟨(ApiCacheRepository.put hrn service serviceVersion
      (a.serviceUrl service serviceVersion) w.1,
        w.2 ++ [.lookupApiClient service serviceVersion]), ?_, ?_, ?_⟩
    · simp [serviceUrl, hcached, Network.handle, Answers.network]
    · exact OnlyWrites.insert (kindOf_url hrn service serviceVersion) _ w.1
    · intro other
      unfold serviceUrl
      rw [url_put]
      by_cases h : other = service
      · rw [if_pos h, h, hcached]
        rfl
      · rw [if_neg h]

/-- The catalog that is delivered is in the cache afterwards. -/
theorem getCatalog_answers (r : CatalogRequest) (hr : r.fetchOption ≠ .cacheOnly) (w : World) :
    ∃ w', (CatalogRepository.getCatalog hrn r).eval (CatalogRepository.handle a.network hrn) w =
        (.ok (catalogOf a hrn r.fetchOption r.billingTag w.1), w') ∧
      Updates a hrn [.url, .catalog] w.1 w'.1 ∧
      CatalogCacheRepository.get hrn w'.1 =
        some (catalogOf a hrn r.fetchOption r.billingTag w.1) := by
  unfold CatalogRepository.getCatalog
  rw [Program.eval_executeOrCancelled]
  cases hseen : seen r.fetchOption (CatalogCacheRepository.get hrn w.1) with
  | some catalog =>
    have hcatalog : catalogOf a hrn r.fetchOption r.billingTag w.1 = catalog := by
      rw [catalogOf, hseen]
      rfl
    rw [eval_checkCache_of_seen hseen, hcatalog]
    exact ⟨w, rfl, .refl w.1, eq_some_of_seen hseen⟩
  | none =>
    have hcatalog : catalogOf a hrn r.fetchOption r.billingTag w.1 =
        a.catalog (serviceUrl a hrn "config".toList w.1) r.billingTag := by
      rw [catalogOf, hseen]
      rfl
    obtain ⟨w₁, hurl, hw₁⟩ := getApiClient_answers a hrn "config".toList w
    rw [eval_checkCache_of_not_seen hr hseen, hcatalog, Program.eval_request,
      show CatalogRepository.handle a.network hrn (.getApiClient "config".toList serviceVersion) w
        = _ from hurl]
    refine ⟨(CatalogCacheRepository.put hrn _ w₁.1, _), rfl, ?_, catalog_put hrn _ w₁.1⟩
    exact hw₁.andThen (OnlyWrites.insert (kindOf_catalog hrn) _ w₁.1) (by decide)

theorem getLatestCatalogVersion_answers (r : CatalogVersionRequest)
    (hr : r.fetchOption ≠ .cacheOnly) (w : World) :
    let version := a.latestVersion (serviceUrl a hrn "metadata".toList w.1) r.startVersion
      r.billingTag
    ∃ w', (CatalogRepository.getLatestCatalogVersion hrn r).eval
        (CatalogRepository.handle a.network hrn) w = (.ok version, w') ∧
      Updates a hrn [.url, .version] w.1 w'.1 ∧
      CatalogCacheRepository.getVersion hrn w'.1 = some version := by
  intro version
  obtain ⟨w₁, hurl, hw₁⟩ := getApiClient_answers a hrn "metadata".toList w
  unfold CatalogRepository.getLatestCatalogVersion
  rw [Program.eval_executeOrCancelled, if_neg hr, Program.eval_request,
    show CatalogRepository.handle a.network hrn (.getApiClient "metadata".toList serviceVersion) w
      = _ from hurl]
  refine ⟨(CatalogCacheRepository.putVersion hrn version w₁.1, _), rfl, ?_,
    version_put hrn version w₁.1⟩
  exact hw₁.andThen (OnlyWrites.insert (kindOf_version hrn) _ w₁.1) (by decide)

end Online

/-! ## Settling the version of a request -/

section Settle

variable {layer : Layer} {version : Option ℤ}

theorem settle_eq_some {settled : Option ℤ} (h : settle layer version none = some settled)
    (latest : Option ℤ) : settle layer version latest = some settled := by
  unfold settle at h ⊢
  split at h
  · rename_i htype
    rwa [if_pos htype]
  · rename_i htype
    rw [if_neg htype]
    cases version with
    | none => exact nomatch h
    | some asked => exact h

theorem settle_eq_latest (h : settle layer version none = none) (latest : Option ℤ) :
    settle layer version latest = latest.map some := by
  unfold settle at h ⊢
  split at h
  · exact nomatch h
  · rename_i htype
    rw [if_neg htype]
    cases version with
    | none => rfl
    | some asked => exact nomatch h

theorem exists_settle (layer : Layer) (version : Option ℤ) (latest : ℤ) :
    ∃ settled, settle layer version (some latest) = some settled := by
  cases hsettle : settle layer version none with
  | some settled => exact ⟨settled, settle_eq_some hsettle _⟩
  | none => exact ⟨some latest, settle_eq_latest hsettle _⟩

end Settle

section Append

variable {Rest : Type}
  {handle : (op : PartitionsRepository.Op) → Store × Rest → op.Answer × Store × Rest}
  {r : PartitionsRequest}
  {fetchPartitions : PartitionsRequest → Option ℤ → PartitionsRepository.PartitionsProgram}
  {w w₁ w₂ : Store × Rest} {catalog : Catalog} {layer : Layer}

theorem eval_append_error {error : ApiError}
    (hcatalog : handle (.getCatalog ⟨r.billingTag, r.fetchOption⟩) w = (.error error, w₁)) :
    (PartitionsRepository.appendPartitionsRequest r fetchPartitions).eval handle w =
      (.error error, w₁) := by
  unfold PartitionsRepository.appendPartitionsRequest
  rw [Program.eval_executeOrCancelled, Program.eval_request, hcatalog]
  rfl

variable (hcatalog : handle (.getCatalog ⟨r.billingTag, r.fetchOption⟩) w = (.ok catalog, w₁))
include hcatalog

theorem eval_append_no_layer (hlayer : layer? catalog r.layerId = none) :
    (PartitionsRepository.appendPartitionsRequest r fetchPartitions).eval handle w =
      (.error layerDoesNotExist, w₁) := by
  unfold layer? at hlayer
  unfold PartitionsRepository.appendPartitionsRequest
  rw [Program.eval_executeOrCancelled, Program.eval_request, hcatalog]
  dsimp only
  rw [hlayer]
  rfl

variable (hlayer : layer? catalog r.layerId = some layer)
include hlayer

/-- The version is settled without asking for the latest one. -/
theorem eval_append_settled {version : Option ℤ}
    (hsettle : settle layer r.version none = some version) :
    ∃ expiry, (PartitionsRepository.appendPartitionsRequest r fetchPartitions).eval handle w =
      (fetchPartitions { r with version := version } expiry).eval handle w₁ := by
  obtain ⟨layerId, asked, billingTag, fetchOption⟩ := r
  unfold layer? at hlayer
  unfold settle at hsettle
  unfold PartitionsRepository.appendPartitionsRequest
  rw [Program.eval_executeOrCancelled, Program.eval_request, hcatalog]
  dsimp only at hlayer hsettle ⊢
  rw [hlayer]
  dsimp only
  split at hsettle
  · rename_i htype
    cases hsettle
    rw [if_pos htype]
    exact ⟨_, rfl⟩
  · rename_i htype
    rw [if_neg htype]
    cases asked with
    | none => exact nomatch hsettle
    | some asked =>
      cases hsettle
      exact ⟨_, rfl⟩

/-- Otherwise the latest version is asked for. -/
theorem eval_append_latest (hsettle : settle layer r.version none = none) {response : Response ℤ}
    (hlatest : handle (.getLatestCatalogVersion ⟨-1, r.billingTag, r.fetchOption⟩) w₁ =
      (response, w₂)) :
    ∃ expiry, (PartitionsRepository.appendPartitionsRequest r fetchPartitions).eval handle w =
      match response with
      | .error error => (.error error, w₂)
      | .ok latest =>
        (fetchPartitions { r with version := some latest } expiry).eval handle w₂ := by
  obtain ⟨layerId, asked, billingTag, fetchOption⟩ := r
  unfold layer? at hlayer
  unfold settle at hsettle
  unfold PartitionsRepository.appendPartitionsRequest
  rw [Program.eval_executeOrCancelled, Program.eval_request, hcatalog]
  dsimp only at hlayer hsettle hlatest ⊢
  rw [hlayer]
  dsimp only
  split at hsettle
  · exact nomatch hsettle
  · rename_i htype
    rw [if_neg htype]
    cases asked with
    | some asked => exact nomatch hsettle
    | none =>
      rw [if_neg (by exact Bool.false_ne_true), Program.eval_executeOrCancelled,
        Program.eval_request, hlatest]
      cases response with
      | error error => exact ⟨none, rfl⟩
      | ok latest => exact ⟨_, rfl⟩

end Append

section Version

variable (a : Answers) (hrn : List Char)

/-- What the version was settled from is in the cache afterwards. -/
theorem append_online {r : PartitionsRequest} (hr : r.fetchOption ≠ .cacheOnly)
    (fetchPartitions : PartitionsRequest → Option ℤ → PartitionsRepository.PartitionsProgram)
    (w : World) :
    ∃ (w' : World) (expiry : Option ℤ), Updates a hrn [.url, .catalog, .version] w.1 w'.1 ∧
      CatalogCacheRepository.get hrn w'.1 =
        some (catalogOf a hrn r.fetchOption r.billingTag w.1) ∧
      cachedVersion hrn r w'.1 = versionOf a hrn r w.1 ∧
      (PartitionsRepository.appendPartitionsRequest r fetchPartitions).eval
          (PartitionsRepository.handle a.network hrn) w =
        match versionOf a hrn r w.1 with
        | none => (.error layerDoesNotExist, w')
        | some version => (fetchPartitions { r with version := version } expiry).eval
            (PartitionsRepository.handle a.network hrn) w' := by
  obtain ⟨w₁, hcatalog, hw₁, hget⟩ := getCatalog_answers a hrn ⟨r.billingTag, r.fetchOption⟩ hr w
  have hw₁' : Updates a hrn [.url, .catalog, .version] w.1 w₁.1 := hw₁.mono (by simp)
  replace hcatalog : PartitionsRepository.handle a.network hrn
    (.getCatalog ⟨r.billingTag, r.fetchOption⟩) w = _ := hcatalog
  dsimp only at hcatalog hget
  unfold versionOf cachedVersion
  cases hlayer : layer? (catalogOf a hrn r.fetchOption r.billingTag w.1) r.layerId with
  | none =>
    refine ⟨w₁, none, hw₁', hget, ?_, eval_append_no_layer hcatalog hlayer⟩
    rw [hget, Option.bind_some, hlayer]
    rfl
  | some layer =>
    rw [Option.bind_some]
    cases hsettle : settle layer r.version none with
    | some version =>
      obtain ⟨expiry, heval⟩ := eval_append_settled hcatalog hlayer hsettle
      refine ⟨w₁, expiry, hw₁', hget, ?_, ?_⟩
      · rw [hget, Option.bind_some, hlayer, Option.bind_some, settle_eq_some hsettle,
          settle_eq_some hsettle]
      · rw [settle_eq_some hsettle]
        exact heval
    | none =>
      -- the latest version is asked of the network for every option but `CacheOnly`
      obtain ⟨w₂, hlatest, hw₂, hversion⟩ := getLatestCatalogVersion_answers a hrn
        ⟨-1, r.billingTag, r.fetchOption⟩ hr w₁
      replace hlatest : PartitionsRepository.handle a.network hrn
        (.getLatestCatalogVersion ⟨-1, r.billingTag, r.fetchOption⟩) w₁ = _ := hlatest
      rw [hw₁.urls] at hlatest hversion
      have hget₂ : CatalogCacheRepository.get hrn w₂.1 = _ :=
        (hw₂.only.catalog (by decide)).trans hget
      obtain ⟨expiry, heval⟩ := eval_append_latest hcatalog hlayer hsettle hlatest
      refine ⟨w₂, expiry, hw₁'.trans (hw₂.mono (by simp)), hget₂, ?_, ?_⟩
      · rw [hget₂, Option.bind_some, hlayer, Option.bind_some, hversion]
        rfl
      · rw [settle_eq_latest hsettle]
        exact heval

end Version

/-! ## Partitions of a layer -/

section Partitions

variable (a : Answers) (hrn : List Char)

theorem getPartitionsInternal_online (url : List Char) (r : PartitionsRequest)
    (expiry version : Option ℤ) (w : World) :
    ∃ w', (PartitionsRepository.getPartitionsInternal hrn url r expiry version).eval
        (PartitionsRepository.handle a.network hrn) w =
        (.ok (a.partitions url r.layerId version r.billingTag), w') ∧
      Updates a hrn [.partitions] w.1 w'.1 ∧
      PartitionsCacheRepository.get hrn r w'.1 =
        some (kept (a.partitions url r.layerId version r.billingTag)) := by
  refine ⟨(PartitionsCacheRepository.put hrn r _ expiry true w.1, _), rfl, ?_, ?_⟩
  · exact .of_only (onlyWrites_put hrn r _ expiry true w.1) (by decide)
  · exact partitions_put hrn r _ expiry w.1

theorem getLayerVersion_online (url : List Char) (r : PartitionsRequest) (version : ℤ)
    (callback : Response ℤ → PartitionsRepository.PartitionsProgram) (w : World) :
    ∃ w', (PartitionsRepository.getLayerVersion hrn url r version callback).eval
        (PartitionsRepository.handle a.network hrn) w =
      (PartitionsRepository.layerVersionsCallback r callback
        ((PartitionsCacheRepository.getLayerVersions hrn version w.1).getD
          (a.layerVersions url version r.billingTag))).eval
        (PartitionsRepository.handle a.network hrn) w' ∧
      Updates a hrn [.layerVersions] w.1 w'.1 := by
  unfold PartitionsRepository.getLayerVersion
  rw [Program.eval_executeOrCancelled, Program.eval_read]
  cases PartitionsCacheRepository.getLayerVersions hrn version w.1 with
  | some cached => exact ⟨w, rfl, .refl w.1⟩
  | none =>
    refine ⟨(PartitionsCacheRepository.putLayerVersions hrn version _ w.1, _), rfl, ?_⟩
    exact .of_only (OnlyWrites.insert (kindOf_layerVersions hrn version) _ w.1) (by decide)

/-- What is fetched is delivered, and what is kept of it is in the cache afterwards. -/
theorem fetchPartitions_online {fetchOption : FetchOptions} (hfetch : fetchOption ≠ .cacheOnly)
    (r : PartitionsRequest) (expiry : Option ℤ) (w : World)
    (hseen : seen fetchOption (PartitionsCacheRepository.get hrn r w.1) = none) :
    ∃ w', (PartitionsRepository.fetchPartitions hrn fetchOption r expiry).eval
        (PartitionsRepository.handle a.network hrn) w =
        (match networkPartitions a hrn r w.1 with
          | some partitions => .ok partitions
          | none => .error layerDoesNotExist, w') ∧
      Updates a hrn [.url, .layerVersions, .partitions] w.1 w'.1 ∧
      PartitionsCacheRepository.get hrn r w'.1 =
        ((networkPartitions a hrn r w.1).map kept).or
          (PartitionsCacheRepository.get hrn r w.1) := by
  obtain ⟨w₁, hurl, hw₁⟩ := getApiClient_answers a hrn "metadata".toList w
  replace hurl : PartitionsRepository.handle a.network hrn
    (.getApiClient "metadata".toList serviceVersion) w = _ := hurl
  have hw₁' : Updates a hrn [.url, .layerVersions, .partitions] w.1 w₁.1 := hw₁.mono (by simp)
  unfold PartitionsRepository.fetchPartitions networkPartitions
  rw [Program.eval_executeOrCancelled, eval_checkCache_of_not_seen hfetch hseen,
    Program.eval_request, hurl]
  dsimp only
  cases hversion : r.version with
  | none =>
    obtain ⟨w₂, heval, hw₂, hget⟩ := getPartitionsInternal_online a hrn
      (serviceUrl a hrn "metadata".toList w.1) r expiry none w₁
    exact ⟨w₂, heval, hw₁'.trans (hw₂.mono (by simp)), hget⟩
  | some version =>
    obtain ⟨w₂, heval, hw₂⟩ := getLayerVersion_online a hrn
      (serviceUrl a hrn "metadata".toList w.1) r version
      (PartitionsRepository.layerVersionCallback hrn _ r expiry) w₁
    have hw₂' := hw₁'.trans (hw₂.mono (by simp))
    rw [hw₁.only.layerVersions (by decide)] at heval
    dsimp only
    rw [heval]
    unfold PartitionsRepository.layerVersionsCallback
    cases hfind : List.find? (fun layer => layer.layer = r.layerId)
        ((PartitionsCacheRepository.getLayerVersions hrn version w.1).getD
          (a.layerVersions (serviceUrl a hrn "metadata".toList w.1) version r.billingTag)) with
    | none =>
      -- the error is no 403, so nothing is cleared
      refine ⟨w₂, rfl, hw₂', ?_⟩
      exact (hw₂.only.partitions (by decide) r).trans (hw₁.only.partitions (by decide) r)
    | some layer =>
      obtain ⟨w₃, heval₃, hw₃, hget⟩ := getPartitionsInternal_online a hrn
        (serviceUrl a hrn "metadata".toList w.1) r expiry (some layer.version) w₂
      exact ⟨w₃, heval₃, hw₂'.trans (hw₃.mono (by simp)), hget⟩

end Partitions

/-! ## Requests that stay in the cache -/

section Offline

variable (a : Answers) (hrn : List Char)

/-- A `CacheOnly` request delivers the cached copy and changes nothing. Without one it fails,
with `NotFound` or for another reason. -/
def AnswersFromCache {α : Type} (cached : Option α) (Otherwise : Prop)
    (result : Response α × World) (w : World) : Prop :=
  match cached with
  | some copy => result = (.ok copy, w)
  | none => ∃ error, result = (.error error, w) ∧ (error.errorCode = .notFound ∨ Otherwise)

theorem AnswersFromCache.mono {α : Type} {cached : Option α} {Otherwise Otherwise' : Prop}
    {result : Response α × World} {w : World} (h : AnswersFromCache cached Otherwise result w)
    (himp : Otherwise → Otherwise') : AnswersFromCache cached Otherwise' result w := by
  cases cached with
  | some copy => exact h
  | none =>
    obtain ⟨error, hresult, herror⟩ := h
    exact ⟨error, hresult, herror.imp_right himp⟩

theorem eval_checkCache_cacheOnly {Op : Type} {Answer : Op → Type} {Reply Rest α : Type}
    {handle : (op : Op) → Store × Rest → Answer op × Store × Rest}
    {get : Store → Option α} {notFound : List Char}
    {callback : Response α → Program Op Answer Store Reply}
    {online : Program Op Answer Store Reply} {w : Store × Rest} (h : get w.1 = none) :
    (checkCache .cacheOnly get notFound callback online).eval handle w =
      (callback (.error (.ofCode .notFound notFound))).eval handle w := by
  unfold checkCache
  rw [if_pos (by decide), Program.eval_read, h]
  rfl

theorem getCatalog_cacheOnly (billingTag : Option (List Char)) (w : World) :
    AnswersFromCache (CatalogCacheRepository.get hrn w.1) False
      ((CatalogRepository.getCatalog hrn ⟨billingTag, .cacheOnly⟩).eval
        (CatalogRepository.handle a.network hrn) w) w := by
  unfold CatalogRepository.getCatalog
  rw [Program.eval_executeOrCancelled]
  cases hget : CatalogCacheRepository.get hrn w.1 with
  | some catalog => exact eval_checkCache_of_seen hget
  | none => exact ⟨_, eval_checkCache_cacheOnly hget, Or.inl rfl⟩

theorem getLatestCatalogVersion_cacheOnly (startVersion : ℤ) (billingTag : Option (List Char))
    (w : World) :
    AnswersFromCache (CatalogCacheRepository.getVersion hrn w.1) False
      ((CatalogRepository.getLatestCatalogVersion hrn ⟨startVersion, billingTag, .cacheOnly⟩).eval
        (CatalogRepository.handle a.network hrn) w) w := by
  unfold CatalogRepository.getLatestCatalogVersion
  rw [Program.eval_executeOrCancelled, if_pos rfl, Program.eval_read]
  cases CatalogCacheRepository.getVersion hrn w.1 with
  | some version => rfl
  | none => exact ⟨_, rfl, Or.inl rfl⟩

/-- The cached catalog does not name a layer. -/
def LacksLayer (layerId : List Char) (s : Store) : Prop :=
  ∃ catalog, CatalogCacheRepository.get hrn s = some catalog ∧ layer? catalog layerId = none

/-- The version is settled from the cache, or the request fails. -/
theorem append_cacheOnly {r : PartitionsRequest} (hr : r.fetchOption = .cacheOnly)
    (fetchPartitions : PartitionsRequest → Option ℤ → PartitionsRepository.PartitionsProgram)
    (w : World) :
    match cachedVersion hrn r w.1 with
    | some version => ∃ expiry,
        (PartitionsRepository.appendPartitionsRequest r fetchPartitions).eval
          (PartitionsRepository.handle a.network hrn) w =
        (fetchPartitions { r with version := version } expiry).eval
          (PartitionsRepository.handle a.network hrn) w
    | none => ∃ error,
        (PartitionsRepository.appendPartitionsRequest r fetchPartitions).eval
          (PartitionsRepository.handle a.network hrn) w = (.error error, w) ∧
        (error.errorCode = .notFound ∨ LacksLayer hrn r.layerId w.1) := by
  have hcatalog := getCatalog_cacheOnly a hrn r.billingTag w
  rw [← hr] at hcatalog
  unfold cachedVersion
  cases hget : CatalogCacheRepository.get hrn w.1 with
  | none =>
    rw [hget] at hcatalog
    obtain ⟨error, hcatalog, herror⟩ := hcatalog
    replace hcatalog : PartitionsRepository.handle a.network hrn
      (.getCatalog ⟨r.billingTag, r.fetchOption⟩) w = (.error error, w) := hcatalog
    exact ⟨error, eval_append_error hcatalog, herror.imp_right False.elim⟩
  | some catalog =>
    rw [hget] at hcatalog
    replace hcatalog : PartitionsRepository.handle a.network hrn
      (.getCatalog ⟨r.billingTag, r.fetchOption⟩) w = (.ok catalog, w) := hcatalog
    rw [Option.bind_some]
    cases hlayer : layer? catalog r.layerId with
    | none =>
      exact ⟨_, eval_append_no_layer hcatalog hlayer, Or.inr ⟨catalog, hget, hlayer⟩⟩
    | some layer =>
      rw [Option.bind_some]
      cases hsettle : settle layer r.version none with
      | some version =>
        rw [settle_eq_some hsettle]
        exact eval_append_settled hcatalog hlayer hsettle
      | none =>
        have hlatest := getLatestCatalogVersion_cacheOnly a hrn (-1) r.billingTag w
        rw [← hr] at hlatest
        rw [settle_eq_latest hsettle]
        cases hversion : CatalogCacheRepository.getVersion hrn w.1 with
        | none =>
          rw [hversion] at hlatest
          obtain ⟨error, hlatest, herror⟩ := hlatest
          replace hlatest : PartitionsRepository.handle a.network hrn
            (.getLatestCatalogVersion ⟨-1, r.billingTag, r.fetchOption⟩) w =
              (.error error, w) := hlatest
          obtain ⟨_, heval⟩ := eval_append_latest hcatalog hlayer hsettle hlatest
          exact ⟨error, heval, herror.imp_right False.elim⟩
        | some version =>
          rw [hversion] at hlatest
          replace hlatest : PartitionsRepository.handle a.network hrn
            (.getLatestCatalogVersion ⟨-1, r.billingTag, r.fetchOption⟩) w =
              (.ok version, w) := hlatest
          exact eval_append_latest hcatalog hlayer hsettle hlatest

/-- The partitions of a layer that are cached for a request. -/
def cachedPartitions (r : PartitionsRequest) (s : Store) : Option (List Partition) :=
  (cachedVersion hrn r s).bind fun version =>
    PartitionsCacheRepository.get hrn { r with version := version } s

theorem fetchPartitions_cacheOnly (r : PartitionsRequest) (expiry : Option ℤ) (w : World) :
    AnswersFromCache (PartitionsCacheRepository.get hrn r w.1) False
      ((PartitionsRepository.fetchPartitions hrn .cacheOnly r expiry).eval
        (PartitionsRepository.handle a.network hrn) w) w := by
  unfold PartitionsRepository.fetchPartitions
  rw [Program.eval_executeOrCancelled]
  cases hget : PartitionsCacheRepository.get hrn r w.1 with
  | some partitions => exact eval_checkCache_of_seen hget
  | none => exact ⟨_, eval_checkCache_cacheOnly hget, Or.inl rfl⟩

theorem getPartitions_cacheOnly {r : PartitionsRequest} (hr : r.fetchOption = .cacheOnly)
    (w : World) :
    AnswersFromCache (cachedPartitions hrn r w.1) (LacksLayer hrn r.layerId w.1)
      ((PartitionsRepository.getPartitions hrn r).eval
        (PartitionsRepository.handle a.network hrn) w) w := by
  have happend := append_cacheOnly a hrn hr
    (PartitionsRepository.fetchPartitions hrn .cacheOnly) w
  unfold PartitionsRepository.getPartitions cachedPartitions
  rw [hr]
  cases hversion : cachedVersion hrn r w.1 with
  | none =>
    rw [hversion] at happend
    exact happend
  | some version =>
    rw [hversion] at happend
    obtain ⟨expiry, happend⟩ := happend
    rw [happend, Option.bind_some]
    exact (fetchPartitions_cacheOnly a hrn _ expiry w).mono False.elim

end Offline

/-! ## What is cached after an update -/

section Stored

variable (a : Answers) (hrn : List Char)

theorem cachedVersion_of_onlyWrites {kinds : List Kind} {s s' : Store} (h : OnlyWrites kinds s s')
    (hcatalog : .catalog ∉ kinds) (hversion : .version ∉ kinds) (r : PartitionsRequest) :
    cachedVersion hrn r s' = cachedVersion hrn r s := by
  unfold cachedVersion
  rw [h.catalog hcatalog, h.version hversion]

theorem networkPartitions_of_updates {kinds : List Kind} {s s' : Store}
    (h : Updates a hrn kinds s s') (hkind : .layerVersions ∉ kinds) (r : PartitionsRequest) :
    networkPartitions a hrn r s' = networkPartitions a hrn r s := by
  unfold networkPartitions
  dsimp only
  rw [h.urls]
  split
  · rfl
  · rw [h.only.layerVersions hkind]

/-- The partitions of a layer that a request leaves in the cache: those that were cached for
the version it is settled to, or else what is kept of the network's. -/
def heldPartitions (r : PartitionsRequest) (s : Store) : Option (List Partition) :=
  (versionOf a hrn r s).bind fun version =>
    (PartitionsCacheRepository.get hrn { r with version := version } s).or
      ((networkPartitions a hrn { r with version := version } s).map kept)

theorem getPartitions_holds {r : PartitionsRequest} (hr : r.fetchOption = .onlineIfNotFound)
    (w : World) :
    cachedPartitions hrn r ((PartitionsRepository.getPartitions hrn r).eval
      (PartitionsRepository.handle a.network hrn) w).2.1 = heldPartitions a hrn r w.1 := by
  have hfetch : r.fetchOption ≠ .cacheOnly := by rw [hr]; decide
  obtain ⟨w₁, expiry, hw₁, -, hcached, heval⟩ := append_online a hrn hfetch
    (PartitionsRepository.fetchPartitions hrn r.fetchOption) w
  unfold PartitionsRepository.getPartitions heldPartitions cachedPartitions
  rw [heval]
  cases hversion : versionOf a hrn r w.1 with
  | none =>
    rw [hversion] at hcached
    dsimp only
    rw [hcached]
    rfl
  | some version =>
    rw [hversion] at hcached
    rw [Option.bind_some]
    have hget₁ : PartitionsCacheRepository.get hrn { r with version := version } w₁.1 = _ :=
      hw₁.only.partitions (by decide) _
    dsimp only
    cases hget : PartitionsCacheRepository.get hrn { r with version := version } w.1 with
    | some partitions =>
      rw [hget] at hget₁
      have hseen : seen r.fetchOption (PartitionsCacheRepository.get hrn
          { r with version := version } w₁.1) = some partitions := by
        rw [hget₁, hr]
        rfl
      unfold PartitionsRepository.fetchPartitions
      rw [Program.eval_executeOrCancelled, eval_checkCache_of_seen hseen, Program.eval_reply,
        hcached, Option.bind_some, hget₁]
      rfl
    | none =>
      rw [hget] at hget₁
      have hseen : seen r.fetchOption (PartitionsCacheRepository.get hrn
          { r with version := version } w₁.1) = none := by
        rw [hget₁, hr]
        rfl
      obtain ⟨w₂, heval₂, hw₂, hget₂⟩ := fetchPartitions_online a hrn hfetch
        { r with version := version } expiry w₁ hseen
      rw [heval₂]
      dsimp only
      rw [cachedVersion_of_onlyWrites hrn hw₂.only (by decide) (by decide), hcached,
        Option.bind_some, hget₂, hget₁, networkPartitions_of_updates a hrn hw₁ (by decide),
        Option.or_none, Option.none_or]

end Stored

end OlpEdgeSdk.Analysis.PartitionRequests

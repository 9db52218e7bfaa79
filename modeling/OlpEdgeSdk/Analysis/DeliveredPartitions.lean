import OlpEdgeSdk.Analysis.DataRequests
import OlpEdgeSdk.Analysis.LayerListings

/-!
# The partition that is delivered

A request for one partition that succeeds leaves the partition in the cache, under the version
that its request was settled to (`getPartitionsById_ok`): the request's own for a versioned
layer with a version and for another layer without one, else a version that the request does not
name.

SOURCE: PartitionsRepository.cpp:139-212, PartitionsRepository.cpp:387-461
-/

set_option autoImplicit false

namespace OlpEdgeSdk.Analysis.DeliveredPartitions

open OlpEdgeSdk.Base OlpEdgeSdk.Model OlpEdgeSdk.Analysis.CacheKeys
open OlpEdgeSdk.Analysis.CatalogIsolation (isColon)
open OlpEdgeSdk.Analysis.PartitionRequests OlpEdgeSdk.Analysis.DataRequests
open CacheRepositories (CacheEvent)

/-! ## The keys of a partition -/

/-- The end of the key of a partition. -/
def versionEnd : Option ℤ → List Char
  | some version => separator ++ decimal version ++ "::partition".toList
  | none => separator

theorem partitionKey_eq (hrn layerId id : List Char) (version : Option ℤ) :
    PartitionsCacheRepository.partitionKey hrn layerId id version =
      hrn ++ separator ++ layerId ++ separator ++ (id ++ versionEnd version) := by
  cases version with
  | none => simp [PartitionsCacheRepository.partitionKey, versionEnd]
  | some version => simp [PartitionsCacheRepository.partitionKey, versionEnd]

/-- **The key of a partition** spells its id and its version. -/
theorem partitionKey_injective {hrn layerId id other : List Char} {version version' : Option ℤ}
    (h : PartitionsCacheRepository.partitionKey hrn layerId id version =
      PartitionsCacheRepository.partitionKey hrn layerId other version') :
    id = other ∧ version = version' := by
  have hlast : ∀ (x : List Char) (v : ℤ), (PartitionsCacheRepository.partitionKey hrn layerId x
      (some v)).getLast? = some 'n' := by
    intro x v
    simp [PartitionsCacheRepository.partitionKey]
  have hcolon : ∀ x : List Char, (PartitionsCacheRepository.partitionKey hrn layerId x
      none).getLast? = some ':' := by
    intro x
    rw [partitionKey_eq, List.getLast?_append, List.getLast?_append]
    rfl
  cases version with
  | none =>
    cases version' with
    | none => exact ⟨(partitionKey_inj hrn layerId none id other).mp h, rfl⟩
    | some v =>
      have hsame := hlast other v
      rw [← h, hcolon id] at hsame
      exact absurd hsame (by decide)
  | some v =>
    cases version' with
    | none =>
      have hsame := hlast id v
      rw [h, hcolon other] at hsame
      exact absurd hsame (by decide)
    | some v' =>
      -- with one letter more it is the key of a listing, of a longer layer
      have hlisting : ∀ (x : List Char) (v : ℤ),
          PartitionsCacheRepository.partitionKey hrn layerId x (some v) ++ ['s'] =
            PartitionsCacheRepository.partitionsKey hrn (layerId ++ separator ++ x) (some v) := by
        intro x v
        simp [PartitionsCacheRepository.partitionKey, PartitionsCacheRepository.partitionsKey]
      have hkeys := congrArg (fun key => key ++ ['s']) h
      simp only [hlisting] at hkeys
      obtain ⟨hlayer, hversion⟩ := LayerListings.partitionsKey_inj hkeys
      exact ⟨List.append_cancel_left hlayer, hversion⟩

/-! ## Requests that succeed -/

section Succeed

/-- A success comes from the cache and changes nothing, or from the network. -/
theorem checkCache_ok {Op : Type} {Answer : Op → Type} {Rest α : Type}
    {handle : (op : Op) → Store × Rest → Answer op × Store × Rest} {fetchOption : FetchOptions}
    {get : Store → Option α} {notFound : List Char}
    {online : Program Op Answer Store (Response α)} {w w' : Store × Rest} {x : α}
    (h : (checkCache fetchOption get notFound .reply online).eval handle w = (.ok x, w')) :
    (seen fetchOption (get w.1) = some x ∧ w' = w) ∨
      seen fetchOption (get w.1) = none ∧ fetchOption ≠ .cacheOnly ∧
        online.eval handle w = (.ok x, w') := by
  cases hseen : seen fetchOption (get w.1) with
  | some cached =>
    rw [eval_checkCache_of_seen hseen] at h
    cases h
    exact Or.inl ⟨rfl, rfl⟩
  | none =>
    by_cases hfetch : fetchOption = .cacheOnly
    · subst hfetch
      have hnone : get w.1 = none := hseen
      rw [eval_checkCache_cacheOnly hnone] at h
      cases h
    · rw [eval_checkCache_of_not_seen hfetch hseen] at h
      exact Or.inr ⟨rfl, hfetch, h⟩

/-- A success of a request whose answer is cached is the network's, and is put. -/
theorem cacheResponseCallback_ok {Op : Type} {Answer : Op → Type} {Rest α : Type}
    {handle : (op : Op) → Store × Rest → Answer op × Store × Rest} {put : α → Store → Store}
    {clear : Store → Store} {response : Response α} {w w' : Store × Rest} {x : α}
    (h : (cacheResponseCallback put clear .reply response).eval handle w = (.ok x, w')) :
    response = .ok x ∧ w' = (put x w.1, w.2) := by
  cases response with
  | ok y =>
    cases h
    exact ⟨rfl, rfl⟩
  | error error =>
    unfold cacheResponseCallback at h
    dsimp only at h
    split at h
    · cases h
    · cases h

variable {net : Network} {hrn : List Char} {w w' : World}

theorem getApiClient_ok {service url : List Char}
    (h : (ApiRepository.getApiClient hrn service serviceVersion).eval net.handle w =
      (.ok url, w')) :
    OnlyWrites [.url] w.1 w'.1 ∧
      ApiCacheRepository.get hrn service serviceVersion w'.1 = some url := by
  unfold ApiRepository.getApiClient at h
  rw [Program.eval_read] at h
  cases hcached : ApiCacheRepository.get hrn service serviceVersion w.1 with
  | some cached =>
    rw [hcached] at h
    cases h
    exact ⟨.refl w.1, hcached⟩
  | none =>
    rw [hcached] at h
    dsimp only at h
    rw [Program.eval_request] at h
    cases hanswer : net (.lookupApiClient service serviceVersion) with
    | error error =>
      simp only [Network.handle, hanswer] at h
      cases h
    | ok answered =>
      simp only [Network.handle, hanswer] at h
      cases h
      exact ⟨OnlyWrites.insert (kindOf_url hrn service serviceVersion) _ w.1, by
        rw [url_put, if_pos rfl]⟩

theorem getApiClient_of_cached {service url : List Char}
    (h : ApiCacheRepository.get hrn service serviceVersion w.1 = some url) :
    (ApiRepository.getApiClient hrn service serviceVersion).eval net.handle w = (.ok url, w) := by
  unfold ApiRepository.getApiClient
  rw [Program.eval_read, h]
  rfl

/-- A catalog that was delivered is delivered again. -/
theorem getCatalog_ok {r : CatalogRequest} {catalog : Catalog}
    (h : (CatalogRepository.getCatalog hrn r).eval (CatalogRepository.handle net hrn) w =
      (.ok catalog, w')) :
    OnlyWrites [.url, .catalog] w.1 w'.1 ∧
      ∃ w'', (CatalogRepository.getCatalog hrn r).eval (CatalogRepository.handle net hrn) w' =
        (.ok catalog, w'') := by
  have hrun := h
  unfold CatalogRepository.getCatalog at h
  rw [Program.eval_executeOrCancelled] at h
  rcases checkCache_ok h with ⟨-, rfl⟩ | ⟨-, hfetch, hquery⟩
  · exact ⟨.refl _, w', hrun⟩
  · rw [Program.eval_request] at hquery
    cases hurl : CatalogRepository.handle net hrn (.getApiClient "config".toList serviceVersion) w
      with
    | mk response w₁ =>
      rw [hurl] at hquery
      cases response with
      | error error => cases hquery
      | ok url =>
        dsimp only at hquery
        rw [Program.eval_executeOrCancelled, Program.eval_request] at hquery
        obtain ⟨hanswer, hput⟩ := cacheResponseCallback_ok hquery
        replace hanswer : net (.getCatalog url r.billingTag) = .ok catalog := hanswer
        obtain ⟨hwrites, hcached⟩ := getApiClient_ok hurl
        replace hput : w' = (CatalogCacheRepository.put hrn catalog w₁.1,
          w₁.2 ++ [.getCatalog url r.billingTag]) := hput
        have hcatalog : OnlyWrites [.catalog] w₁.1 w'.1 := by
          rw [hput]
          exact OnlyWrites.insert (kindOf_catalog hrn) ⟨.catalog catalog, none⟩ w₁.1
        constructor
        · exact (hwrites.mono (by simp)).trans (hcatalog.mono (by simp))
        · have hget : CatalogCacheRepository.get hrn w'.1 = some catalog := by
            rw [hput]
            exact catalog_put hrn catalog w₁.1
          unfold CatalogRepository.getCatalog
          rw [Program.eval_executeOrCancelled]
          by_cases honline : r.fetchOption = .onlineOnly
          · -- the cache is not read again, but the network answers the same
            have hseen : seen r.fetchOption (CatalogCacheRepository.get hrn w'.1) = none :=
              if_pos honline
            have hurl' : CatalogRepository.handle net hrn
                (.getApiClient "config".toList serviceVersion) w' = (.ok url, w') := by
              apply getApiClient_of_cached
              rw [hcatalog.url (by simp)]
              exact hcached
            rw [eval_checkCache_of_not_seen hfetch hseen, Program.eval_request, hurl']
            refine ⟨(CatalogCacheRepository.put hrn catalog w'.1,
              w'.2 ++ [.getCatalog url r.billingTag]), ?_⟩
            dsimp only
            rw [Program.eval_executeOrCancelled, Program.eval_request, CatalogRepository.handle,
              Network.handle, hanswer]
            rfl
          · have hseen : seen r.fetchOption (CatalogCacheRepository.get hrn w'.1) =
                some catalog := by
              rw [hget]
              exact if_neg honline
            rw [eval_checkCache_of_seen hseen]
            exact ⟨w', rfl⟩

theorem getLatestCatalogVersion_ok {r : CatalogVersionRequest} {version : ℤ}
    (h : (CatalogRepository.getLatestCatalogVersion hrn r).eval
      (CatalogRepository.handle net hrn) w = (.ok version, w')) :
    OnlyWrites [.url, .version] w.1 w'.1 := by
  unfold CatalogRepository.getLatestCatalogVersion at h
  rw [Program.eval_executeOrCancelled] at h
  split at h
  · rw [Program.eval_read] at h
    cases hget : CatalogCacheRepository.getVersion hrn w.1 with
    | some cached =>
      rw [hget] at h
      cases h
      exact .refl w.1
    | none =>
      rw [hget] at h
      cases h
  · rw [Program.eval_request] at h
    cases hurl : CatalogRepository.handle net hrn
      (.getApiClient "metadata".toList serviceVersion) w with
    | mk response w₁ =>
      rw [hurl] at h
      cases response with
      | error error => cases h
      | ok url =>
        dsimp only at h
        rw [Program.eval_executeOrCancelled, Program.eval_request] at h
        obtain ⟨-, hput⟩ := cacheResponseCallback_ok h
        replace hput : w'.1 = CatalogCacheRepository.putVersion hrn version w₁.1 :=
          congrArg Prod.fst hput
        have hversion := OnlyWrites.insert (kindOf_version hrn) ⟨.version version, none⟩ w₁.1
        rw [hput]
        exact ((getApiClient_ok hurl).1.mono (by simp)).trans (hversion.mono (by simp))

end Succeed

/-! ## The partition that is delivered -/

section Delivered

/-- The query service answers with partitions that it is asked for. -/
def AnswersAsked (net : Network) : Prop :=
  ∀ url layerId ids version billingTag partitions,
    net (.getPartitionsbyId url layerId ids version billingTag) = .ok partitions →
    ∀ p ∈ partitions, p.partition ∈ ids

/-- The entries of a partition hold its id. -/
def KeepsId (hrn layerId id : List Char) (s : Store) : Prop :=
  ∀ version p, cachedPartition hrn { layerId := layerId, version := version } id s = some p →
    p.partition = id

/-- The version that `GetPartitionsById` settles a request to. -/
def settledVersion (net : Network) (hrn : List Char) (r : PartitionsRequest) (w : World) :
    Option (Option ℤ) :=
  match PartitionsRepository.handle net hrn (.getCatalog ⟨r.billingTag, r.fetchOption⟩) w with
  | (.error _, _) => none
  | (.ok catalog, w) => (layer? catalog r.layerId).bind fun layer =>
    match PartitionsRepository.handle net hrn
      (.getLatestCatalogVersion ⟨-1, r.billingTag, r.fetchOption⟩) w with
    | (.error _, _) => settle layer r.version none
    | (.ok latest, _) => settle layer r.version (some latest)

/-- The request's own version is the one that it is settled to. -/
def OwnVersion (layer : Layer) (version : Option ℤ) : Prop :=
  layer.layerType = "versioned".toList ↔ version.isSome = true

theorem eq_iff_ownVersion {layer : Layer} {version latest settled : Option ℤ}
    (h : settle layer version latest = some settled) :
    settled = version ↔ OwnVersion layer version := by
  unfold settle at h
  unfold OwnVersion
  split at h
  · next htype =>
    cases h
    cases version with
    | none => exact iff_of_true rfl (iff_of_false htype Bool.false_ne_true)
    | some v => exact iff_of_false (by simp) fun hown => htype (hown.mpr rfl)
  · next htype =>
    rw [not_not] at htype
    cases version with
    | some v =>
      cases h
      exact iff_of_true rfl (iff_of_true htype rfl)
    | none =>
      cases latest with
      | none => cases h
      | some v =>
        cases h
        exact iff_of_false (by simp) fun hown => Bool.false_ne_true (hown.mp htype)

/-- A write for one version leaves the entries of another. -/
theorem cachedPartition_put_of_ne {hrn : List Char} {r : PartitionsRequest} {version : Option ℤ}
    (hne : version ≠ r.version) (partitions : List Partition) (expiry : Option ℤ)
    (id : List Char) (s : Store) :
    cachedPartition hrn { r with version := version } id
        (PartitionsCacheRepository.put hrn r partitions expiry false s) =
      cachedPartition hrn { r with version := version } id s := by
  induction partitions generalizing s with
  | nil => rfl
  | cons p partitions ih =>
    refine (ih (s.insert (PartitionsCacheRepository.partitionKey hrn r.layerId p.partition
      r.version) ⟨.partition p, expiry⟩)).trans ?_
    unfold cachedPartition
    rw [valueAt_insert, if_neg]
    intro hkey
    exact hne (partitionKey_injective hkey).2

variable {net : Network} {hrn id : List Char} {r : PartitionsRequest} {p : Partition}
  {w w' : World}

/-- What a request for one partition does to the entries of its id: the partition is cached
under the request's version, and the other versions are left alone. -/
structure CachedAs (hrn id : List Char) (r : PartitionsRequest) (p : Partition) (s s' : Store) :
    Prop where
  own : p.partition = id
  cached : cachedPartition hrn r id s' = some p
  others : ∀ version, version ≠ r.version →
    cachedPartition hrn { r with version := version } id s' =
      cachedPartition hrn { r with version := version } id s

theorem CachedAs.after {kinds : List Kind} {s s' s'' : Store} (h : CachedAs hrn id r p s' s'')
    (hwrites : OnlyWrites kinds s s') (hkinds : .partitions ∉ kinds) :
    CachedAs hrn id r p s s'' where
  own := h.own
  cached := h.cached
  others := by
    intro version hne
    rw [h.others version hne, hwrites.cachedPartition hrn hkinds]

theorem CachedAs.before {kinds : List Kind} {s s' s'' : Store} (h : CachedAs hrn id r p s s')
    (hwrites : OnlyWrites kinds s' s'') (hkinds : .partitions ∉ kinds) :
    CachedAs hrn id r p s s'' where
  own := h.own
  cached := (hwrites.cachedPartition hrn hkinds r id).trans h.cached
  others := by
    intro version hne
    rw [hwrites.cachedPartition hrn hkinds, h.others version hne]

theorem KeepsId.of_onlyWrites {kinds : List Kind} {layerId : List Char} {s s' : Store}
    (h : KeepsId hrn layerId id s) (hwrites : OnlyWrites kinds s s')
    (hkinds : .partitions ∉ kinds) : KeepsId hrn layerId id s' := by
  intro version p hp
  rw [hwrites.cachedPartition hrn hkinds] at hp
  exact h version p hp

theorem KeepsId.of_cachedAs {s s' : Store} (h : KeepsId hrn r.layerId id s)
    (hcached : CachedAs hrn id r p s s') : KeepsId hrn r.layerId id s' := by
  intro version q hq
  by_cases hversion : version = r.version
  · subst hversion
    have hsame : some p = some q := hcached.cached.symm.trans hq
    cases hsame
    exact hcached.own
  · exact h version q ((hcached.others version hversion).symm.trans hq)

theorem fetchPartitionsById_ok (r : PartitionsRequest) (hasked : AnswersAsked net)
    {fetchOption : FetchOptions} {expiry : Option ℤ} (hkeeps : KeepsId hrn r.layerId id w.1)
    (h : (PartitionsRepository.fetchPartitionsById hrn fetchOption [id] r expiry).eval
      (PartitionsRepository.handle net hrn) w = (.ok [p], w')) :
    CachedAs hrn id r p w.1 w'.1 := by
  unfold PartitionsRepository.fetchPartitionsById at h
  rw [Program.eval_executeOrCancelled] at h
  rcases checkCache_ok h with ⟨hseen, rfl⟩ | ⟨-, -, hquery⟩
  · have hcached : cachedPartition hrn r id w'.1 = some p := by
      have hall := eq_some_of_seen hseen
      rw [allCached_singleton, Option.map_eq_some_iff] at hall
      obtain ⟨q, hq, hsingle⟩ := hall
      rw [hq, List.singleton_injective hsingle]
    exact ⟨hkeeps r.version p hcached, hcached, fun _ _ => rfl⟩
  · rw [Program.eval_request] at hquery
    cases hurl : PartitionsRepository.handle net hrn
      (.getApiClient "query".toList serviceVersion) w with
    | mk response w₁ =>
      rw [hurl] at hquery
      cases response with
      | error error => cases hquery
      | ok url =>
        dsimp only at hquery
        rw [Program.eval_executeOrCancelled, Program.eval_request] at hquery
        obtain ⟨hanswer, hput⟩ := cacheResponseCallback_ok hquery
        replace hanswer : net (.getPartitionsbyId url r.layerId [id] r.version r.billingTag) =
          .ok [p] := hanswer
        replace hput : w'.1 = PartitionsCacheRepository.put hrn r [p] expiry false w₁.1 :=
          congrArg Prod.fst hput
        have hown : p.partition = id := List.mem_singleton.mp
          (hasked _ _ _ _ _ _ hanswer p (List.mem_singleton_self p))
        have hcached : CachedAs hrn id r p w₁.1 w'.1 := by
          rw [hput]
          refine ⟨hown, ?_, fun version hne => cachedPartition_put_of_ne hne [p] expiry id w₁.1⟩
          rw [cachedPartition_put]
          simp [keptAt, hown]
        exact hcached.after (getApiClient_ok hurl).1 (by simp)

/-- **The partition that is delivered** is cached under the version its request is settled
to. -/
theorem getPartitionsById_ok (hasked : AnswersAsked net) (hkeeps : KeepsId hrn r.layerId id w.1)
    {catalog : Catalog} {layer : Layer} {w₁ : World}
    (hcatalog : PartitionsRepository.handle net hrn (.getCatalog ⟨r.billingTag, r.fetchOption⟩) w =
      (.ok catalog, w₁)) (hlayer : layer? catalog r.layerId = some layer)
    (h : (PartitionsRepository.getPartitionsById hrn r [id]).eval
      (PartitionsRepository.handle net hrn) w = (.ok [p], w')) :
    ∃ version, settledVersion net hrn r w = some version ∧
      (version = r.version ↔ OwnVersion layer r.version) ∧
      CachedAs hrn id { r with version := version } p w.1 w'.1 := by
  obtain ⟨hw₁, -⟩ := getCatalog_ok hcatalog
  unfold PartitionsRepository.getPartitionsById at h
  unfold settledVersion
  rw [hcatalog]
  dsimp only
  rw [hlayer, Option.bind_some]
  cases hlatest : PartitionsRepository.handle net hrn
    (.getLatestCatalogVersion ⟨-1, r.billingTag, r.fetchOption⟩) w₁ with
  | mk response w₂ =>
    cases hsettle : settle layer r.version none with
    | some version =>
      obtain ⟨expiry, heval⟩ := eval_append_settled hcatalog hlayer hsettle
      rw [heval] at h
      have hfetched := fetchPartitionsById_ok { r with version := version } hasked
        (hkeeps.of_onlyWrites hw₁ (by simp)) h
      refine ⟨version, ?_, eq_iff_ownVersion hsettle, hfetched.after hw₁ (by simp)⟩
      cases response with
      | error error => rfl
      | ok latest => exact settle_eq_some hsettle _
    | none =>
      obtain ⟨expiry, heval⟩ := eval_append_latest hcatalog hlayer hsettle hlatest
      rw [heval] at h
      cases response with
      | error error => cases h
      | ok latest =>
        have hw₂ := (hw₁.mono (by simp)).trans ((getLatestCatalogVersion_ok hlatest).mono
          (List.subset_append_right [.url, .catalog] _))
        have hfetched := fetchPartitionsById_ok { r with version := some latest } hasked
          (hkeeps.of_onlyWrites hw₂ (by simp)) h
        have hversion := settle_eq_latest hsettle (some latest)
        exact ⟨some latest, hversion, eq_iff_ownVersion hversion, hfetched.after hw₂ (by simp)⟩

end Delivered

/-! ## Caches that the repositories write -/

section Kept

variable {hrn layerId id : List Char} {s : Store}

theorem KeepsId.of_loses {s' : Store} (h : KeepsId hrn layerId id s)
    (hloses : LayerListings.Loses s s') : KeepsId hrn layerId id s' := by
  intro version p hp
  apply h version p
  unfold cachedPartition at hp ⊢
  rcases hloses (PartitionsCacheRepository.partitionKey hrn layerId id version) with hsame | hnone
  · rw [hsame] at hp
    exact hp
  · rw [hnone] at hp
    cases hp

/-- A write keeps the ids if what it writes under a key of the partition has its id. -/
theorem KeepsId.insert (h : KeepsId hrn layerId id s) {key : List Char} {entry : CacheEntry}
    (hentry : ∀ version p, PartitionsCacheRepository.partitionKey hrn layerId id version = key →
      entry.value = .partition p → p.partition = id) :
    KeepsId hrn layerId id (s.insert key entry) := by
  intro version p hp
  unfold cachedPartition at hp
  rw [valueAt_insert] at hp
  split at hp
  · next q hvalue =>
    split at hvalue
    · next hkey =>
      cases hp
      exact hentry version p hkey (Option.some.inj hvalue)
    · apply h version p
      unfold cachedPartition
      rw [hvalue]
      exact hp
  · cases hp

/-- The keys of partitions of two layers without colons are different. -/
theorem layer_eq_of_partitionKey {layerId' id' : List Char} {version version' : Option ℤ}
    (hlayer : Free isColon layerId) (hlayer' : Free isColon layerId')
    (h : PartitionsCacheRepository.partitionKey hrn layerId id version =
      PartitionsCacheRepository.partitionKey hrn layerId' id' version') : layerId = layerId' := by
  have hstops : ∀ l : List Char, Stops isColon (separator ++ l) := fun l => stops_cons rfl _
  rw [partitionKey_eq, partitionKey_eq] at h
  simp only [List.append_assoc, List.append_cancel_left_eq] at h
  exact (append_inj_of_free hlayer hlayer' (hstops _) (hstops _) h).1

theorem KeepsId.put (h : KeepsId hrn layerId id s) (hlayer : Free isColon layerId)
    {r : PartitionsRequest} (hr : Free isColon r.layerId) (partitions : List Partition)
    (expiry : Option ℤ) :
    KeepsId hrn layerId id (PartitionsCacheRepository.put hrn r partitions expiry false s) := by
  induction partitions generalizing s with
  | nil => exact h
  | cons q partitions ih =>
    apply ih
    apply h.insert
    rintro version p hkey ⟨⟩
    have hsame := layer_eq_of_partitionKey hlayer hr hkey
    rw [← hsame] at hkey
    exact (partitionKey_injective hkey).1.symm

/-- The layers that partitions are put for hold no colon. -/
def LayersFree : CacheEvent → Prop
  | .call (.putPartitions r _ _ _) => Free isColon r.layerId
  | _ => True

/-- **Step.** The entries of a partition hold its id. -/
theorem keepsId_apply (hlayer : Free isColon layerId) (h : KeepsId hrn layerId id s)
    {event : CacheEvent} (hevent : LayersFree event) :
    KeepsId hrn layerId id (event.apply hrn s) := by
  by_cases hput : ∃ r partitions expiry allLayer,
      event = .call (.putPartitions r partitions expiry allLayer)
  · obtain ⟨r, partitions, expiry, allLayer, rfl⟩ := hput
    have hkept := h.put hlayer (r := r) hevent partitions expiry
    cases allLayer with
    | false => exact hkept
    | true =>
      -- the list of the partitions is no partition
      apply hkept.insert
      rintro version p - ⟨⟩
  · simp only [not_exists] at hput
    rcases LayerListings.loses_or_onlyWrites hput s with hloses | ⟨kinds, hkinds, hwrites⟩
    · exact h.of_loses hloses
    · exact h.of_onlyWrites hwrites hkinds

/-- **Run.** In a cache that the repositories of a catalog have written, the entries of each
partition hold its id. -/
theorem keepsId_cacheAfter (hlayer : Free isColon layerId) {events : List CacheEvent}
    (hevents : ∀ event ∈ events, LayersFree event) :
    KeepsId hrn layerId id (LayerListings.cacheAfter hrn events) := by
  have hrun : ∀ (events : List CacheEvent) (s : Store), (∀ event ∈ events, LayersFree event) →
      KeepsId hrn layerId id s →
      KeepsId hrn layerId id (events.foldl (fun s event => event.apply hrn s) s) := by
    intro events
    induction events with
    | nil => exact fun _ _ h => h
    | cons event events ih =>
      intro s hevents h
      apply ih
      · exact fun event hmem => hevents event (List.mem_cons_of_mem _ hmem)
      · exact keepsId_apply hlayer h (hevents event List.mem_cons_self)
  apply hrun events _ hevents
  intro version p hp
  cases hp

end Kept

end OlpEdgeSdk.Analysis.DeliveredPartitions

import OlpEdgeSdk.Analysis.DataRequests

/-!
# What `CacheWithUpdate` leaves in the cache

The background request of a `CacheWithUpdate` call is made with `OnlineIfNotFound`. Whatever
the cache already holds of the catalog, of the partitions and of the data is used as it is, and
only what is missing is fetched; so the cache is brought up to date exactly when what it holds
leads to what the network answers now. That is what an `OnlineOnly` call delivers.

SOURCE: CatalogClientImpl.cpp:78-232, FetchOptions.h:43-46
-/

set_option autoImplicit false

namespace OlpEdgeSdk.Analysis.CacheUpdate

open OlpEdgeSdk.Base OlpEdgeSdk.Model OlpEdgeSdk.Model.CatalogClientImpl
open OlpEdgeSdk.Analysis.PartitionRequests OlpEdgeSdk.Analysis.DataRequests

/-- The callback of a `CacheWithUpdate` call gets the cached copy, or `NotFound` if there is
none; and a following `CacheOnly` call gets what the network answers now. -/
def Refreshes {α : Type} (answer : FetchOptions → World → Response α × World)
    (cached : Option α) (current : α) (w : World) : Prop :=
  (match cached with
    | some copy => (answer .cacheWithUpdate w).1 = .ok copy
    | none => ∃ error, (answer .cacheWithUpdate w).1 = .error error ∧
        error.errorCode = .notFound) ∧
  (answer .cacheOnly (answer .cacheWithUpdate w).2).1 = .ok current

section Refreshes

variable {α : Type} {ask : FetchOptions → World → Response α × World}
  (cached held : Store → Option α)
  (hcache : ∀ w, AnswersFromCache (cached w.1) (held w.1 = none) (ask .cacheOnly w) w)
include hcache

theorem cacheOnly_unchanged (w : World) : (ask .cacheOnly w).2 = w := by
  have h := hcache w
  cases hcached : cached w.1 with
  | some copy =>
    rw [hcached] at h
    rw [show ask .cacheOnly w = _ from h]
  | none =>
    rw [hcached] at h
    obtain ⟨error, h, -⟩ := h
    rw [h]

theorem cacheOnly_eq_ok_iff (w : World) (copy : α) :
    (ask .cacheOnly w).1 = .ok copy ↔ cached w.1 = some copy := by
  have h := hcache w
  cases hcached : cached w.1 with
  | some copy' =>
    rw [hcached] at h
    rw [show ask .cacheOnly w = _ from h, Option.some_inj]
    simp only [Except.ok.injEq]
  | none =>
    rw [hcached] at h
    obtain ⟨error, h, -⟩ := h
    rw [h]
    constructor
    · rintro ⟨⟩
    · rintro ⟨⟩

/-- **An update refreshes exactly if what it leaves in the cache is what the network answers.** -/
theorem refreshes_iff_held (hupdate : ∀ w, cached (ask .onlineIfNotFound w).2.1 = held w.1)
    (current : α) (w : World) :
    Refreshes (withUpdate ask) (cached w.1) current w ↔ held w.1 = some current := by
  have hcall : withUpdate ask .cacheWithUpdate w =
      ((ask .cacheOnly w).1, (ask .onlineIfNotFound w).2) := by
    unfold withUpdate
    rw [if_pos rfl]
    dsimp only
    rw [cacheOnly_unchanged cached held hcache]
  unfold Refreshes
  rw [hcall, show withUpdate ask .cacheOnly = ask .cacheOnly from rfl,
    cacheOnly_eq_ok_iff cached held hcache, hupdate, and_iff_right_iff_imp]
  -- what is held can be asked for, so a miss can only be `NotFound`
  intro hheld
  have h := hcache w
  cases hcached : cached w.1 with
  | some copy => exact (cacheOnly_eq_ok_iff cached held hcache w copy).mpr hcached
  | none =>
    rw [hcached] at h
    obtain ⟨error, h, herror⟩ := h
    refine ⟨error, by rw [h], herror.resolve_right ?_⟩
    rw [hheld]
    exact nofun

end Refreshes

section Client

variable (a : Answers) (hrn : List Char)

theorem catalog_refreshes_iff (r : CatalogRequest) (current : Catalog) (w : World) :
    Refreshes (fun fetchOption => answerCatalog a.network hrn { r with fetchOption := fetchOption })
        (CatalogCacheRepository.get hrn w.1) current w ↔
      catalogOf a hrn .onlineIfNotFound r.billingTag w.1 = current := by
  let ask (fetchOption : FetchOptions) : World → Response Catalog × World :=
    (CatalogRepository.getCatalog hrn { r with fetchOption := fetchOption }).eval
      (CatalogRepository.handle a.network hrn)
  let held (s : Store) : Option Catalog :=
    some (catalogOf a hrn .onlineIfNotFound r.billingTag s)
  have hcache (w : World) : AnswersFromCache (CatalogCacheRepository.get hrn w.1)
      (held w.1 = none) (ask .cacheOnly w) w :=
    (getCatalog_cacheOnly a hrn r.billingTag w).mono False.elim
  have hupdate (w : World) :
      CatalogCacheRepository.get hrn (ask .onlineIfNotFound w).2.1 = held w.1 := by
    obtain ⟨w', heval, -, hget⟩ := getCatalog_answers a hrn ⟨r.billingTag, .onlineIfNotFound⟩
      nofun w
    rw [show ask .onlineIfNotFound w = _ from heval]
    exact hget
  rw [← Option.some_inj]
  exact refreshes_iff_held _ held hcache hupdate current w

theorem partitions_refreshes_iff (r : PartitionsRequest) (current : List Partition) (w : World) :
    Refreshes
        (fun fetchOption => answerPartitions a.network hrn { r with fetchOption := fetchOption })
        (cachedPartitions hrn r w.1) current w ↔
      heldPartitions a hrn { r with fetchOption := .onlineIfNotFound } w.1 = some current := by
  let ask (fetchOption : FetchOptions) : World → Response (List Partition) × World :=
    (PartitionsRepository.getPartitions hrn { r with fetchOption := fetchOption }).eval
      (PartitionsRepository.handle a.network hrn)
  let held (s : Store) : Option (List Partition) :=
    heldPartitions a hrn { r with fetchOption := .onlineIfNotFound } s
  have hcache (w : World) :
      AnswersFromCache (cachedPartitions hrn r w.1) (held w.1 = none) (ask .cacheOnly w) w := by
    refine (getPartitions_cacheOnly a hrn
      (r := { r with fetchOption := .cacheOnly }) rfl w).mono ?_
    rintro ⟨catalog, hget, hlayer⟩
    dsimp only [held, heldPartitions, versionOf]
    rw [catalogOf_of_get hget, hlayer]
    rfl
  have hupdate (w : World) :
      cachedPartitions hrn r (ask .onlineIfNotFound w).2.1 = held w.1 :=
    getPartitions_holds a hrn (r := { r with fetchOption := .onlineIfNotFound }) rfl w
  exact refreshes_iff_held _ held hcache hupdate current w

/-- A request that names no data has no data. -/
theorem no_data_of_rejected {r : DataRequest} {error : ApiError}
    (h : DataRepository.rejected r = some error) (s : Store) :
    cachedData hrn r s = none ∧ heldData a hrn r s = none := by
  have hnamed : r.dataHandle = none ∧ r.partitionId = none := by
    unfold DataRepository.rejected at h
    split at h
    · assumption
    · exact nomatch h
  simp [cachedData, heldData, hnamed]

theorem answerData_of_rejected {r : DataRequest} {error : ApiError}
    (h : DataRepository.rejected r = some error) :
    (fun fetchOption => answerData a.network hrn { r with fetchOption := fetchOption }) =
      withUpdate fun _ w => (.error error, w) := by
  funext fetchOption
  unfold answerData
  rw [show DataRepository.rejected { r with fetchOption := fetchOption } = some error from h]

theorem answerData_of_named {r : DataRequest} (h : DataRepository.rejected r = none) :
    (fun fetchOption => answerData a.network hrn { r with fetchOption := fetchOption }) =
      withUpdate fun fetchOption =>
        (DataRepository.getData hrn { r with fetchOption := fetchOption }).eval
          (DataRepository.handle a.network hrn) := by
  funext fetchOption
  unfold answerData
  rw [show DataRepository.rejected { r with fetchOption := fetchOption } = none from h]

theorem data_refreshes_iff (r : DataRequest) (current : Data) (w : World) :
    Refreshes (fun fetchOption => answerData a.network hrn { r with fetchOption := fetchOption })
        ((cachedData hrn r w.1).map some) current w ↔
      (heldData a hrn { r with fetchOption := .onlineIfNotFound } w.1).map some =
        some current := by
  let cached (s : Store) : Option Data := (cachedData hrn r s).map some
  let held (s : Store) : Option Data :=
    (heldData a hrn { r with fetchOption := .onlineIfNotFound } s).map some
  cases hnamed : DataRepository.rejected r with
  | some error =>
    have hcached (s : Store) : cached s = none :=
      congrArg (Option.map some) (no_data_of_rejected a hrn hnamed s).1
    have hheld (s : Store) : held s = none :=
      congrArg (Option.map some) (no_data_of_rejected
        (r := { r with fetchOption := .onlineIfNotFound }) a hrn hnamed s).2
    rw [answerData_of_rejected a hrn hnamed]
    refine refreshes_iff_held cached held (fun w => ?_) (fun w => ?_)
      current w
    · rw [hcached]
      exact ⟨error, rfl, Or.inr (hheld w.1)⟩
    · rw [hcached, hheld]
  | none =>
    rw [answerData_of_named a hrn hnamed]
    refine refreshes_iff_held cached held (fun w => ?_) (fun w => ?_)
      current w
    · exact (getData_cacheOnly a hrn (r := { r with fetchOption := .cacheOnly }) rfl hnamed
        w).mono fun hheld => congrArg (Option.map some) hheld
    · exact congrArg (Option.map some)
        (getData_holds a hrn (r := { r with fetchOption := .onlineIfNotFound }) rfl hnamed w)

/-- A network with one versioned layer that has one partition. -/
def onePartition : Answers where
  serviceUrl service _ := service
  catalog _ _ := ⟨[⟨['l'], "versioned".toList, none⟩], ['2']⟩
  latestVersion _ _ _ := 3
  layerVersions _ _ _ := [⟨['l'], 3⟩]
  partitions _ _ _ _ := [⟨['p'], ['d'], []⟩]
  partitionsById _ _ _ _ _ := [⟨['p'], ['d'], []⟩]
  blob _ _ _ _ _ := ['7']

end Client

end OlpEdgeSdk.Analysis.CacheUpdate

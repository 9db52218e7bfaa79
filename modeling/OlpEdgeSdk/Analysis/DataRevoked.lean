import OlpEdgeSdk.Analysis.DeliveredPartitions
import OlpEdgeSdk.Analysis.FetchOptions
import OlpEdgeSdk.Analysis.PartitionsCleared

/-!
# What a refused request for data revokes

When the data of a partition is refused, `GetData` clears the data and then the partition. The
partition was cached under the version that its request was settled to; it is cleared under the
version of the request for data. The two are the same for a versioned layer with a version and
for another layer without one. Otherwise nothing is read under the second, and the partition
stays.

SOURCE: DataRepository.cpp:62-76, DataRepository.cpp:250-292, PartitionsRepository.cpp:173-208,
PartitionsCacheRepository.cpp:162-175
-/

set_option autoImplicit false

namespace OlpEdgeSdk.Analysis.DataRevoked

open OlpEdgeSdk.Base OlpEdgeSdk.Model OlpEdgeSdk.Analysis.CacheKeys
open OlpEdgeSdk.Analysis.PartitionRequests OlpEdgeSdk.Analysis.DataRequests
open OlpEdgeSdk.Analysis.DeliveredPartitions OlpEdgeSdk.Analysis.PartitionsCleared
open OlpEdgeSdk.Analysis.FetchOptions
  (uses_checkCache uses_cacheResponseCallback uses_appendPartitionsRequest
  uses_verifyResponseCallback)

/-! ## The request for the data -/

section AsksData

/-- The call asks a service for data. -/
def AsksData : NetworkCall → Prop
  | .getBlob _ _ _ _ _ => True
  | _ => False

/-- No data was asked for. -/
def NoData (log : List NetworkCall) : Prop := ∀ call ∈ log, ¬ AsksData call

/-- The requests of a `CatalogRepository` that do not ask for data. -/
def CatalogAsks : CatalogRepository.Op → Prop
  | .network call => ¬ AsksData call
  | _ => True

/-- The requests of a `PartitionsRepository` that do not ask for data. -/
def PartitionsAsks : PartitionsRepository.Op → Prop
  | .network call => ¬ AsksData call
  | _ => True

variable {net : Network} {hrn : List Char} {w : World}

theorem noData_handle {call : NetworkCall} (hcall : ¬ AsksData call) (w : World)
    (hw : NoData w.2) : NoData (net.handle call w).2.2 := by
  intro other hother
  rw [Network.handle, List.mem_append, List.mem_singleton] at hother
  rcases hother with hmem | rfl
  · exact hw other hmem
  · exact hcall

theorem getApiClient_noData (service serviceVersion : List Char) (hw : NoData w.2) :
    NoData ((ApiRepository.getApiClient hrn service serviceVersion).eval net.handle w).2.2 := by
  apply Program.eval_keeps (fun call => ¬ AsksData call) NoData
    (fun _ hcall w hw => noData_handle hcall w hw) _ hw
  intro s
  dsimp only
  split
  · trivial
  · constructor
    · exact id
    · intro response
      dsimp only
      split
      · trivial
      · trivial

theorem noData_catalogHandle (op : CatalogRepository.Op) (hop : CatalogAsks op) (w : World)
    (hw : NoData w.2) : NoData (CatalogRepository.handle net hrn op w).2.2 := by
  cases op with
  | getApiClient service serviceVersion => exact getApiClient_noData service serviceVersion hw
  | network call => exact noData_handle hop w hw

theorem getCatalog_noData (r : CatalogRequest) (hw : NoData w.2) :
    NoData ((CatalogRepository.getCatalog hrn r).eval
      (CatalogRepository.handle net hrn) w).2.2 := by
  apply Program.eval_keeps CatalogAsks NoData noData_catalogHandle _ hw
  apply uses_checkCache
  · exact fun _ => trivial
  · refine ⟨trivial, fun response => ?_⟩
    dsimp only
    split
    · trivial
    · exact ⟨id, uses_cacheResponseCallback fun _ => trivial⟩

theorem getLatestCatalogVersion_noData (r : CatalogVersionRequest) (hw : NoData w.2) :
    NoData ((CatalogRepository.getLatestCatalogVersion hrn r).eval
      (CatalogRepository.handle net hrn) w).2.2 := by
  apply Program.eval_keeps CatalogAsks NoData noData_catalogHandle _ hw
  unfold CatalogRepository.getLatestCatalogVersion
  dsimp only [Program.Uses]
  split
  · intro s
    dsimp only
    split
    · trivial
    · trivial
  · refine ⟨trivial, fun response => ?_⟩
    dsimp only
    split
    · trivial
    · exact ⟨id, uses_cacheResponseCallback fun _ => trivial⟩

theorem noData_partitionsHandle (op : PartitionsRepository.Op) (hop : PartitionsAsks op)
    (w : World) (hw : NoData w.2) : NoData (PartitionsRepository.handle net hrn op w).2.2 := by
  cases op with
  | getCatalog r => exact getCatalog_noData r hw
  | getLatestCatalogVersion r => exact getLatestCatalogVersion_noData r hw
  | getApiClient service serviceVersion => exact getApiClient_noData service serviceVersion hw
  | network call => exact noData_handle hop w hw

theorem getPartitionsById_noData (r : PartitionsRequest) (ids : List (List Char))
    (hw : NoData w.2) :
    NoData ((PartitionsRepository.getPartitionsById hrn r ids).eval
      (PartitionsRepository.handle net hrn) w).2.2 := by
  apply Program.eval_keeps PartitionsAsks NoData noData_partitionsHandle _ hw
  apply uses_appendPartitionsRequest trivial trivial
  intro appended expiry
  apply uses_checkCache
  · exact fun _ => trivial
  · refine ⟨trivial, fun response => ?_⟩
    dsimp only
    split
    · trivial
    · exact ⟨id, uses_cacheResponseCallback fun _ => trivial⟩

end AsksData

/-! ## The refusal -/

section Refusal

variable {net : Network} {hrn : List Char}

/-- A request for data calls back without having asked for it, or asks. -/
theorem getDataInternal_cases (layerType : List Char) (r : DataRequest)
    (callback : Response Data → DataRepository.DataProgram) {w : World} (hw : NoData w.2) :
    (∃ (response : Response Data) (w' : World), NoData w'.2 ∧
      (DataRepository.getDataInternal hrn layerType r callback).eval
          (DataRepository.handle net hrn) w =
        (callback response).eval (DataRepository.handle net hrn) w') ∨
    ∃ (service : BlobService) (url : List Char) (w' : World), OnlyWrites [.url] w.1 w'.1 ∧
      NoData w'.2 ∧
      (DataRepository.getDataInternal hrn layerType r callback).eval
          (DataRepository.handle net hrn) w =
        (cacheResponseCallback
          (fun data => DataCacheRepository.put hrn data r.layerId (r.dataHandle.getD []))
          (DataCacheRepository.clear hrn r.layerId (r.dataHandle.getD []))
          (fun response => callback (response.map some))
          (net (.getBlob service url r.layerId (r.dataHandle.getD []) r.billingTag))).eval
          (DataRepository.handle net hrn)
          (w'.1, w'.2 ++ [.getBlob service url r.layerId (r.dataHandle.getD []) r.billingTag]) := by
  unfold DataRepository.getDataInternal
  dsimp only
  cases DataRepository.blobService layerType with
  | none => exact Or.inl ⟨_, w, hw, rfl⟩
  | some service =>
    dsimp only
    rw [Program.eval_executeOrCancelled]
    cases hseen : seen r.fetchOption ((DataCacheRepository.get hrn r.layerId
      (r.dataHandle.getD []) w.1).map some) with
    | some cached =>
      rw [eval_checkCache_of_seen hseen]
      exact Or.inl ⟨_, w, hw, rfl⟩
    | none =>
      by_cases hfetch : r.fetchOption = .cacheOnly
      · rw [hfetch] at hseen ⊢
        rw [eval_checkCache_cacheOnly hseen]
        exact Or.inl ⟨_, w, hw, rfl⟩
      · rw [eval_checkCache_of_not_seen hfetch hseen, Program.eval_request]
        have hurlLog : NoData (DataRepository.handle net hrn
            (.getApiClient service.name serviceVersion) w).2.2 :=
          getApiClient_noData service.name serviceVersion hw
        cases hurl : DataRepository.handle net hrn (.getApiClient service.name serviceVersion) w
          with
        | mk response w₁ =>
          rw [hurl] at hurlLog
          cases response with
          | error error => exact Or.inl ⟨_, w₁, hurlLog, rfl⟩
          | ok url =>
            exact Or.inr ⟨service, url, w₁, (getApiClient_ok hurl).1, hurlLog, rfl⟩

/-- The call for data that was made is the one of the request, for a callback that starts no
request of its own. -/
theorem getDataInternal_asks {layerType : List Char} {r : DataRequest}
    {callback : Response Data → DataRepository.DataProgram}
    (hcallback : ∀ response, (callback response).Uses fun _ => False) {w : World}
    (hw : NoData w.2) {service : BlobService} {url layerId dataHandle : List Char}
    {billingTag : Option (List Char)}
    (hasks : .getBlob service url layerId dataHandle billingTag ∈
      ((DataRepository.getDataInternal hrn layerType r callback).eval
        (DataRepository.handle net hrn) w).2.2) :
    r.dataHandle.getD [] = dataHandle ∧
      ∃ w', OnlyWrites [.url] w.1 w'.1 ∧
        (DataRepository.getDataInternal hrn layerType r callback).eval
            (DataRepository.handle net hrn) w =
          (cacheResponseCallback
            (fun data => DataCacheRepository.put hrn data layerId dataHandle)
            (DataCacheRepository.clear hrn layerId dataHandle)
            (fun response => callback (response.map some))
            (net (.getBlob service url layerId dataHandle billingTag))).eval
            (DataRepository.handle net hrn) w' := by
  rcases getDataInternal_cases layerType r callback hw with
    ⟨response, w', hw', heval⟩ | ⟨service', url', w', hwrites, hw', heval⟩
  · rw [heval, Program.eval_rest (fun _ => False) (fun _ h => h.elim) (hcallback response)]
      at hasks
    exact absurd trivial (hw' _ hasks)
  · rw [heval, Program.eval_rest (fun _ => False) (fun _ h => h.elim)
      (uses_cacheResponseCallback (fun _ => hcallback _) _), List.mem_append,
      List.mem_singleton] at hasks
    rcases hasks with hmem | hcall
    · exact absurd trivial (hw' _ hmem)
    · cases hcall
      exact ⟨rfl, (w'.1, w'.2 ++ [.getBlob service url r.layerId (r.dataHandle.getD [])
        r.billingTag]), hwrites, heval⟩

/-- A refused answer is cleared and passed on. -/
theorem eval_refused {Op : Type} {Answer : Op → Type} {Rest Reply α : Type}
    {handle : (op : Op) → Store × Rest → Answer op × Store × Rest} {put : α → Store → Store}
    {clear : Store → Store} {callback : Response α → Program Op Answer Store Reply}
    {error : ApiError} (hstatus : error.httpStatusCode = 403) {w : Store × Rest} :
    (cacheResponseCallback put clear callback (.error error)).eval handle w =
      (callback (.error error)).eval handle (clear w.1, w.2) := by
  unfold cacheResponseCallback
  dsimp only
  rw [if_pos hstatus, Program.eval_write]

theorem eval_verify_refused {r : DataRequest} {id : List Char} {error : ApiError}
    (hstatus : error.httpStatusCode = 403) {w : World} :
    (DataRepository.verifyResponseCallback hrn r id (.error error)).eval
        (DataRepository.handle net hrn) w =
      (.error error, PartitionsCacheRepository.clearPartitions hrn
        { layerId := r.layerId, version := r.version, billingTag := r.billingTag } [id] w.1,
        w.2) := by
  unfold DataRepository.verifyResponseCallback
  dsimp only
  rw [if_pos hstatus, Program.eval_write, Program.eval_reply]

/-- **What is cleared** when the data of a partition is refused: the data of the handle, and
then the partition under the version of the request for data. -/
theorem getData_refused {r : DataRequest} {id : List Char} (hid : r.partitionId = some id)
    (hhandle : r.dataHandle = none) {s : Store} {service : BlobService}
    {url dataHandle : List Char} {error : ApiError}
    (hasks : .getBlob service url r.layerId dataHandle r.billingTag ∈
      ((DataRepository.getData hrn r).eval (DataRepository.handle net hrn) (s, [])).2.2)
    (hanswer : net (.getBlob service url r.layerId dataHandle r.billingTag) = .error error)
    (hstatus : error.httpStatusCode = 403) :
    ∃ catalog layer p w₁ w₂ s₃,
      DataRepository.handle net hrn (.getCatalog ⟨r.billingTag, r.fetchOption⟩) (s, []) =
        (.ok catalog, w₁) ∧
      layer? catalog r.layerId = some layer ∧
      DataRepository.handle net hrn (.getPartitionsById (partitionRequest r r.version) [id]) w₁ =
        (.ok [p], w₂) ∧
      p.dataHandle = dataHandle ∧ OnlyWrites [.url] w₂.1 s₃ ∧
      ((DataRepository.getData hrn r).eval (DataRepository.handle net hrn) (s, [])).2.1 =
        PartitionsCacheRepository.clearPartitions hrn
          { layerId := r.layerId, version := r.version, billingTag := r.billingTag } [id]
          (DataCacheRepository.clear hrn r.layerId dataHandle s₃) := by
  have hnothing : NoData ([] : List NetworkCall) := by
    intro call hcall
    cases hcall
  cases hcatalog : DataRepository.handle net hrn (.getCatalog ⟨r.billingTag, r.fetchOption⟩) (s, [])
    with
  | mk response w₁ =>
    have hw₁ : NoData w₁.2 := by
      have hkept : NoData (DataRepository.handle net hrn
          (.getCatalog ⟨r.billingTag, r.fetchOption⟩) (s, [])).2.2 := getCatalog_noData _ hnothing
      rw [hcatalog] at hkept
      exact hkept
    cases response with
    | error error =>
      rw [eval_getData_error hcatalog] at hasks
      exact absurd trivial (hw₁ _ hasks)
    | ok catalog =>
      cases hlayer : layer? catalog r.layerId with
      | none =>
        rw [eval_getData_no_layer hcatalog hlayer] at hasks
        exact absurd trivial (hw₁ _ hasks)
      | some layer =>
        rw [eval_getData_partition hcatalog hlayer hhandle hid, Program.eval_request] at hasks ⊢
        cases hpartition : DataRepository.handle net hrn
          (.getPartitionsById (partitionRequest r r.version) [id]) w₁ with
        | mk response w₂ =>
          have hw₂ : NoData w₂.2 := by
            have hkept : NoData (DataRepository.handle net hrn
                (.getPartitionsById (partitionRequest r r.version) [id]) w₁).2.2 :=
              getPartitionsById_noData _ _ hw₁
            rw [hpartition] at hkept
            exact hkept
          rw [hpartition] at hasks
          unfold DataRepository.getPartitionsCallback at hasks ⊢
          dsimp only at hasks ⊢
          split at hasks
          · exact absurd trivial (hw₂ _ hasks)
          · rename_i p
            split at hasks
            · exact absurd trivial (hw₂ _ hasks)
            · next hinline =>
              obtain ⟨hp, w₃, hw₃, heval⟩ :=
                getDataInternal_asks (uses_verifyResponseCallback hrn _ id) hw₂ hasks
              refine ⟨catalog, layer, p, w₁, w₂, w₃.1, rfl, hlayer, hpartition, hp, hw₃, ?_⟩
              rw [if_neg hinline, heval, hanswer, eval_refused hstatus]
              exact congrArg (fun w => w.2.1) (eval_verify_refused hstatus)
          · exact absurd trivial (hw₂ _ hasks)

end Refusal

/-! ## What is revoked -/

theorem notMem_versionEnd (version : Option ℤ) : 'D' ∉ versionEnd version := by
  cases version with
  | none => decide
  | some v =>
    intro hmem
    simp only [versionEnd, List.mem_append] at hmem
    rcases hmem with (hseparator | hdecimal) | hend
    · exact absurd hseparator (by decide)
    · rcases mem_decimal hdecimal with heq | hdigit
      · exact absurd heq (by decide)
      · exact absurd hdigit (by decide)
    · exact absurd hend (by decide)

theorem head?_versionEnd (version : Option ℤ) : (versionEnd version).head? = some ':' := by
  cases version with
  | none => rfl
  | some v => rfl

/-- The key of the data begins that of a partition only where the handle and its end begin the
id: no partition key goes on like the end of a data key. -/
theorem dataKey_prefix_iff {hrn layerId dataHandle id : List Char} {version : Option ℤ} :
    DataCacheRepository.createKey hrn layerId dataHandle <+:
        PartitionsCacheRepository.partitionKey hrn layerId id version ↔
      dataHandle ++ "::Data".toList <+: id := by
  -- of the ends of `::Data`, those without the letter do not begin with a colon
  have hends : ∀ n < 7, 'D' ∈ "::Data".toList.drop n ∨ "::Data".toList.drop n = [] ∨
      ("::Data".toList.drop n).head? ≠ some ':' := by
    decide
  rw [partitionKey_eq, DataCacheRepository.createKey, List.append_assoc _ dataHandle,
    List.prefix_append_right_inj]
  constructor
  · rintro ⟨more, hmore⟩
    rcases List.append_eq_append_iff.mp hmore with ⟨c, hid, htail⟩ | ⟨c, hid, htail⟩
    · exact ⟨c, hid.symm⟩
    · have hnotMem : 'D' ∉ c := by
        intro hmem
        have hall := notMem_versionEnd version
        rw [htail] at hall
        exact hall (List.mem_append_left more hmem)
      rcases List.append_eq_append_iff.mp hid with ⟨a, hhandle, hend⟩ | ⟨a, hhandle, hend⟩
      · -- the key of the partition goes on inside `::Data`
        have hlength : a.length < 7 := by
          have htotal := congrArg List.length hend
          rw [List.length_append] at htotal
          have hsix : "::Data".toList.length = 6 := rfl
          omega
        have hdrop : "::Data".toList.drop a.length = c := by
          rw [hend, List.drop_left]
        have hcases := hends a.length hlength
        rw [hdrop] at hcases
        cases c with
        | nil => exact ⟨[], by rw [List.append_nil, hid, List.append_nil]⟩
        | cons x c =>
          have hcolon := head?_versionEnd version
          rw [htail, List.cons_append, List.head?_cons] at hcolon
          rcases hcases with hmem | hnil | hhead
          · exact absurd hmem hnotMem
          · cases hnil
          · exact absurd hcolon hhead
      · -- or after the handle
        exact absurd (by rw [hend]; exact List.mem_append_right a (by decide)) hnotMem
  · intro hprefix
    exact hprefix.trans (List.prefix_append id _)

section Revoked

variable {hrn : List Char} {r : DataRequest} {id dataHandle : List Char}

/-- Neither the data of the handle nor the partition that names it is cached. -/
def Revoked (hrn : List Char) (r : DataRequest) (id dataHandle : List Char) (version : Option ℤ)
    (s : Store) : Prop :=
  s.find (DataCacheRepository.createKey hrn r.layerId dataHandle) = none ∧
    s.find (PartitionsCacheRepository.partitionKey hrn r.layerId id version) = none

/-- The request under which a refused partition is cleared. -/
def clearedAs (r : DataRequest) : PartitionsRequest :=
  { layerId := r.layerId, version := r.version, billingTag := r.billingTag }

theorem find_ne_none_of_cachedPartition {r : PartitionsRequest} {p : Partition} {s : Store}
    (h : cachedPartition hrn r id s = some p) :
    s.find (PartitionsCacheRepository.partitionKey hrn r.layerId id r.version) ≠ none := by
  intro hnone
  unfold cachedPartition Store.valueAt at h
  rw [hnone] at h
  cases h

/-- The clearing of data leaves a partition whose id does not go on like the key of the data. -/
theorem cachedPartition_clear (hrn : List Char) (hapart : ¬ dataHandle ++ "::Data".toList <+: id)
    (r : PartitionsRequest) (s : Store) :
    cachedPartition hrn r id (DataCacheRepository.clear hrn r.layerId dataHandle s) =
      cachedPartition hrn r id s := by
  unfold cachedPartition Store.valueAt DataCacheRepository.clear
  rw [find_removeKeysWithPrefix_of_not]
  intro hprefix
  exact hapart (dataKey_prefix_iff.mp hprefix)

/-- The data is cleared always, and the partition where one is read under the request's own
version. -/
theorem revoked_clear_iff (dataHandle : List Char) {version : Option ℤ} {p : Partition} {s : Store}
    (hkeeps : KeepsId hrn r.layerId id s)
    (hcached : cachedPartition hrn (partitionRequest r version) id s = some p) :
    Revoked hrn r id dataHandle version
        (PartitionsCacheRepository.clearPartitions hrn (clearedAs r) [id]
          (DataCacheRepository.clear hrn r.layerId dataHandle s)) ↔
      (∃ q, cachedPartition hrn (clearedAs r) id s = some q) ∨
        dataHandle ++ "::Data".toList <+: id := by
  have hnone : ∀ key, (DataCacheRepository.clear hrn r.layerId dataHandle s).find key = none →
      (PartitionsCacheRepository.clearPartitions hrn (clearedAs r) [id]
        (DataCacheRepository.clear hrn r.layerId dataHandle s)).find key = none := by
    intro key hkey
    rw [clearPartitions_eq]
    exact find_foldl_clearOne_of_none _ hkey
  have hdata := hnone _ ( find_removeKeysWithPrefix_of_prefix
    (List.prefix_refl (DataCacheRepository.createKey hrn r.layerId dataHandle)) s)
  by_cases hapart : dataHandle ++ "::Data".toList <+: id
  · apply iff_of_true _ (Or.inr hapart)
    exact ⟨hdata, hnone _ ( find_removeKeysWithPrefix_of_prefix (dataKey_prefix_iff.mpr hapart) s)⟩
  · have hread := cachedPartition_clear hrn hapart (clearedAs r) s
    have hcached' := (cachedPartition_clear hrn hapart (partitionRequest r version) s).trans hcached
    rw [or_iff_left hapart]
    constructor
    · rintro ⟨-, hgone⟩
      by_contra hnot
      have hunread : ¬ Reached hrn (clearedAs r) (PartitionsCacheRepository.getByIds hrn
          (clearedAs r) [id] (DataCacheRepository.clear hrn r.layerId dataHandle s))
          (PartitionsCacheRepository.partitionKey hrn r.layerId id version) := by
        rintro ⟨q, hq, -⟩
        obtain ⟨other, hother, hq⟩ := mem_getByIds.mp hq
        rw [List.mem_singleton.mp hother] at hq
        exact hnot ⟨q, hread.symm.trans hq⟩
      rw [find_clearPartitions_of_not hunread] at hgone
      exact find_ne_none_of_cachedPartition hcached' hgone
    · rintro ⟨q, hq⟩
      have hreached := reached_of_own (r := clearedAs r) (List.mem_singleton_self id)
        (hread.trans hq) (hkeeps r.version q hq) version
      exact ⟨hdata, find_clearPartitions_of_reached hreached⟩

variable {net : Network} {s : Store}

/-- What a request for data finds: the layer, and the version that the partition is cached
under. -/
def lookedUp (net : Network) (hrn : List Char) (r : DataRequest) (s : Store) :
    Option (Layer × Option ℤ) :=
  match DataRepository.handle net hrn (.getCatalog ⟨r.billingTag, r.fetchOption⟩) (s, []) with
  | (.error _, _) => none
  | (.ok catalog, w) => (layer? catalog r.layerId).bind fun layer =>
    (settledVersion net hrn (partitionRequest r r.version) w).map fun version => (layer, version)

/-- The partition is found again when it is to be cleared. -/
def Revocable (hrn : List Char) (r : DataRequest) (layer : Layer) (id dataHandle : List Char)
    (s : Store) : Prop :=
  OwnVersion layer r.version ∨
    (∃ q, cachedPartition hrn (partitionRequest r r.version) id s = some q) ∨
    dataHandle ++ "::Data".toList <+: id

/-- **A refusal revokes** the data and the partition that named it if and only if the partition
is found again. -/
theorem forbidden_revokes_iff (hid : r.partitionId = some id) (hhandle : r.dataHandle = none)
    (hasked : AnswersAsked net) (hkeeps : KeepsId hrn r.layerId id s) {service : BlobService}
    {url : List Char} {error : ApiError}
    (hasks : .getBlob service url r.layerId dataHandle r.billingTag ∈
      ((DataRepository.getData hrn r).eval (DataRepository.handle net hrn) (s, [])).2.2)
    (hanswer : net (.getBlob service url r.layerId dataHandle r.billingTag) = .error error)
    (hstatus : error.httpStatusCode = 403) :
    ∃ layer version, lookedUp net hrn r s = some (layer, version) ∧
      (Revoked hrn r id dataHandle version
          ((DataRepository.getData hrn r).eval (DataRepository.handle net hrn) (s, [])).2.1 ↔
        Revocable hrn r layer id dataHandle s) := by
  obtain ⟨catalog, layer, p, w₁, w₂, s₃, hcatalog, hlayer, hpartition, rfl, hw₃, hfinal⟩ :=
    getData_refused hid hhandle hasks hanswer hstatus
  obtain ⟨hw₁, w₁', hagain⟩ := getCatalog_ok hcatalog
  have hkeeps₁ : KeepsId hrn (partitionRequest r r.version).layerId id w₁.1 :=
    hkeeps.of_onlyWrites hw₁ (by simp)
  obtain ⟨version, hsettled, hown, hcached⟩ :=
    getPartitionsById_ok hasked hkeeps₁ hagain hlayer hpartition
  replace hown : version = r.version ↔ OwnVersion layer r.version := hown
  have hs₃ : CachedAs hrn id (partitionRequest r version) p s s₃ :=
    (hcached.after hw₁ (by simp)).before hw₃ (by simp)
  refine ⟨layer, version, ?_, ?_⟩
  · unfold lookedUp
    rw [hcatalog]
    dsimp only
    rw [hlayer, Option.bind_some, hsettled]
    rfl
  · have hkeeps₃ : KeepsId hrn r.layerId id s₃ :=
      KeepsId.of_cachedAs (r := partitionRequest r version) hkeeps hs₃
    have hrevoked := revoked_clear_iff p.dataHandle hkeeps₃ hs₃.cached
    have hfound : (∃ q, cachedPartition hrn (clearedAs r) id s₃ = some q) ↔
        OwnVersion layer r.version ∨
          ∃ q, cachedPartition hrn (partitionRequest r r.version) id s = some q := by
      by_cases hversion : version = r.version
      · apply iff_of_true
        · subst hversion
          exact ⟨p, hs₃.cached⟩
        · exact Or.inl (hown.mp hversion)
      · -- what is read is what was cached before the request
        have hother : cachedPartition hrn (clearedAs r) id s₃ =
            cachedPartition hrn (partitionRequest r r.version) id s :=
          hs₃.others r.version (Ne.symm hversion)
        rw [hother, or_iff_right fun hsame => hversion (hown.mpr hsame)]
    rw [hfound, or_assoc] at hrevoked
    rw [hfinal]
    exact hrevoked

/-- A network with one versioned layer, which refuses the data of its partitions. -/
def refusing : Network
  | .lookupApiClient _ _ => .ok "url".toList
  | .getCatalog _ _ => .ok ⟨[⟨"layer".toList, "versioned".toList, none⟩], []⟩
  | .getLatestCatalogVersion _ _ _ => .ok 1
  | .getLayerVersions _ _ _ => .ok []
  | .getPartitions _ _ _ _ => .ok []
  | .getPartitionsbyId _ _ ids _ _ => .ok (ids.map fun id => ⟨id, "handle".toList, []⟩)
  | .getBlob _ _ _ _ _ => .error ⟨.accessDenied, 403, [], false⟩

theorem answersAsked_refusing : AnswersAsked refusing := by
  rintro url layerId ids version billingTag partitions ⟨⟩ p hp
  rw [List.mem_map] at hp
  obtain ⟨id, hid, rfl⟩ := hp
  exact hid

theorem keepsId_empty (hrn layerId id : List Char) : KeepsId hrn layerId id SortedMap.empty := by
  intro version p hp
  cases hp

/-- With the version in the request the partition is revoked. -/
theorem forbidden_revokes_version :
    ∃ layer version,
      lookedUp refusing "hrn".toList ⟨"layer".toList, some "id".toList, some 1, none, none,
        .onlineIfNotFound⟩ SortedMap.empty = some (layer, version) ∧
      (Revoked "hrn".toList ⟨"layer".toList, some "id".toList, some 1, none, none,
          .onlineIfNotFound⟩ "id".toList "handle".toList version
          ((DataRepository.getData "hrn".toList ⟨"layer".toList, some "id".toList, some 1, none,
            none, .onlineIfNotFound⟩).eval (DataRepository.handle refusing "hrn".toList)
            (SortedMap.empty, [])).2.1 ↔
        Revocable "hrn".toList ⟨"layer".toList, some "id".toList, some 1, none, none,
          .onlineIfNotFound⟩ layer "id".toList "handle".toList SortedMap.empty) := by
  apply forbidden_revokes_iff rfl rfl answersAsked_refusing (keepsId_empty _ _ _)
  · show NetworkCall.getBlob .blob "url".toList "layer".toList "handle".toList none ∈ _
    decide
  · rfl
  · rfl

/-- Without it the partition stays under the latest version. -/
theorem forbidden_keeps_latest :
    let r : DataRequest :=
      ⟨"layer".toList, some "id".toList, none, none, none, .onlineIfNotFound⟩
    let blob := NetworkCall.getBlob .blob "url".toList "layer".toList "handle".toList none
    let w := (DataRepository.getData "hrn".toList r).eval
      (DataRepository.handle refusing "hrn".toList) (SortedMap.empty, [])
    blob ∈ w.2.2 ∧ refusing blob = .error ⟨.accessDenied, 403, [], false⟩ ∧
      lookedUp refusing "hrn".toList r SortedMap.empty =
        some (⟨"layer".toList, "versioned".toList, none⟩, some 1) ∧
      ¬ Revoked "hrn".toList r "id".toList "handle".toList (some 1) w.2.1 := by
  intro r blob w
  have hasks : blob ∈ w.2.2 := by decide
  have hanswer : refusing blob = .error ⟨.accessDenied, 403, [], false⟩ := rfl
  have hlookedUp : lookedUp refusing "hrn".toList r SortedMap.empty =
      some (⟨"layer".toList, "versioned".toList, none⟩, some 1) := by
    decide
  have hstays : w.2.1.find (PartitionsCacheRepository.partitionKey "hrn".toList "layer".toList
      "id".toList (some 1)) ≠ none := by
    decide
  exact ⟨hasks, hanswer, hlookedUp, fun hrevoked => hstays hrevoked.2⟩

end Revoked

end OlpEdgeSdk.Analysis.DataRevoked

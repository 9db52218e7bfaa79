import Mathlib.Data.List.Induction
import OlpEdgeSdk.Model.CacheRepositories

/-!
# What lies under which key

The repositories share one cache. The end of a key tells which kind of object it holds, so a
write of one kind does not change what the others read; and within a kind the keys of one
catalog differ where the code relies on it.

SOURCE: ApiCacheRepository.cpp, CatalogCacheRepository.cpp, PartitionsCacheRepository.cpp,
DataCacheRepository.cpp
-/

set_option autoImplicit false

namespace OlpEdgeSdk.Analysis.CacheKeys

open OlpEdgeSdk.Base OlpEdgeSdk.Model

/-! ## Writes -/

theorem valueAt_insert (s : Store) (key : List Char) (entry : CacheEntry) (other : List Char) :
    Store.valueAt (s.insert key entry) other =
      if other = key then some entry.value else s.valueAt other := by
  unfold Store.valueAt
  rw [SortedMap.find_insert]
  split
  · rfl
  · rfl

theorem valueAt_insert_self (s : Store) (key : List Char) (entry : CacheEntry) :
    Store.valueAt (s.insert key entry) key = some entry.value := by
  rw [valueAt_insert, if_pos rfl]

theorem valueAt_removeKeysWithPrefix (s : Store) (start key : List Char) :
    (s.removeKeysWithPrefix start).valueAt key =
      if start.isPrefixOf key then none else s.valueAt key := by
  unfold Store.valueAt Store.removeKeysWithPrefix
  rw [SortedMap.find_filterKeys]
  by_cases h : start.isPrefixOf key = true
  · simp [h]
  · simp [h]

/-! ## Kinds of keys -/

/-- The kinds of objects in the cache. -/
inductive Kind where
  | url
  | catalog
  | version
  | partitions
  | layerVersions
  | data
deriving DecidableEq, Repr

/-- The kind of a key, by its last letters. Partitions that have no version are kept under
keys that end in a separator. -/
def kindOf (key : List Char) : Option Kind :=
  match key.reverse with
  | 'i' :: _ => some .url
  | 'g' :: _ => some .catalog
  | 'n' :: 'o' :: 'i' :: 's' :: _ => some .version
  | 'n' :: 'o' :: 'i' :: 't' :: _ => some .partitions
  | 's' :: 'n' :: 'o' :: 'i' :: 't' :: _ => some .partitions
  | ':' :: _ => some .partitions
  | 's' :: 'n' :: 'o' :: 'i' :: 's' :: _ => some .layerVersions
  | 'a' :: _ => some .data
  | _ => none

section KindOf

variable (hrn : List Char)

@[simp] theorem kindOf_url (service version : List Char) :
    kindOf (ApiCacheRepository.createKey hrn service version) = some .url := by
  rw [kindOf, ApiCacheRepository.createKey, List.reverse_append]
  rfl

@[simp] theorem kindOf_catalog : kindOf (CatalogCacheRepository.createKey hrn) = some .catalog := by
  rw [kindOf, CatalogCacheRepository.createKey, List.reverse_append]
  rfl

@[simp] theorem kindOf_version :
    kindOf (CatalogCacheRepository.versionKey hrn) = some .version := by
  rw [kindOf, CatalogCacheRepository.versionKey, List.reverse_append]
  rfl

@[simp] theorem kindOf_partition (layerId partitionId : List Char) (version : Option ℤ) :
    kindOf (PartitionsCacheRepository.partitionKey hrn layerId partitionId version) =
      some .partitions := by
  cases version with
  | none =>
    rw [kindOf, PartitionsCacheRepository.partitionKey, List.append_nil, List.reverse_append]
    rfl
  | some version =>
    rw [kindOf, PartitionsCacheRepository.partitionKey, List.reverse_append, List.reverse_append]
    rfl

@[simp] theorem kindOf_partitions (layerId : List Char) (version : Option ℤ) :
    kindOf (PartitionsCacheRepository.partitionsKey hrn layerId version) = some .partitions := by
  cases version with
  | none =>
    rw [kindOf, PartitionsCacheRepository.partitionsKey, List.append_nil, List.reverse_append]
    rfl
  | some version =>
    rw [kindOf, PartitionsCacheRepository.partitionsKey, List.reverse_append, List.reverse_append]
    rfl

@[simp] theorem kindOf_layerVersions (version : ℤ) :
    kindOf (PartitionsCacheRepository.layerVersionsKey hrn version) = some .layerVersions := by
  rw [kindOf, PartitionsCacheRepository.layerVersionsKey, List.reverse_append]
  rfl

@[simp] theorem kindOf_data (layerId dataHandle : List Char) :
    kindOf (DataCacheRepository.createKey hrn layerId dataHandle) = some .data := by
  rw [kindOf, DataCacheRepository.createKey, List.reverse_append]
  rfl

end KindOf

/-! ## Frames -/

/-- Only objects of some kinds differ. -/
def OnlyWrites (kinds : List Kind) (s s' : Store) : Prop :=
  ∀ key, (∀ kind ∈ kinds, kindOf key ≠ some kind) → s'.valueAt key = s.valueAt key

namespace OnlyWrites

variable {kinds others : List Kind} {s s' s'' : Store}

theorem refl (s : Store) : OnlyWrites kinds s s := fun _ _ => rfl

theorem mono (h : OnlyWrites kinds s s') (hsub : kinds ⊆ others) : OnlyWrites others s s' :=
  fun key hkey => h key fun kind hkind => hkey kind (hsub hkind)

theorem trans (h : OnlyWrites kinds s s') (h' : OnlyWrites kinds s' s'') :
    OnlyWrites kinds s s'' :=
  fun key hkey => (h' key hkey).trans (h key hkey)

theorem insert {kind : Kind} {key : List Char} (hkey : kindOf key = some kind)
    (entry : CacheEntry) (s : Store) : OnlyWrites [kind] s (s.insert key entry) := by
  intro other hother
  rw [valueAt_insert, if_neg]
  rintro rfl
  exact hother kind (List.mem_singleton.mpr rfl) hkey

/-- An object of another kind is still there. -/
theorem valueAt {kind : Kind} {key : List Char} (h : OnlyWrites kinds s s')
    (hkey : kindOf key = some kind) (hkind : kind ∉ kinds) : s'.valueAt key = s.valueAt key := by
  refine h key fun other hother heq => hkind ?_
  rwa [Option.some.inj (hkey.symm.trans heq)]

variable {hrn : List Char}

theorem url (h : OnlyWrites kinds s s') (hkind : .url ∉ kinds) (service version : List Char) :
    ApiCacheRepository.get hrn service version s' =
      ApiCacheRepository.get hrn service version s := by
  unfold ApiCacheRepository.get
  rw [h.valueAt (kindOf_url hrn service version) hkind]

theorem catalog (h : OnlyWrites kinds s s') (hkind : .catalog ∉ kinds) :
    CatalogCacheRepository.get hrn s' = CatalogCacheRepository.get hrn s := by
  unfold CatalogCacheRepository.get
  rw [h.valueAt (kindOf_catalog hrn) hkind]

theorem version (h : OnlyWrites kinds s s') (hkind : .version ∉ kinds) :
    CatalogCacheRepository.getVersion hrn s' = CatalogCacheRepository.getVersion hrn s := by
  unfold CatalogCacheRepository.getVersion
  rw [h.valueAt (kindOf_version hrn) hkind]

theorem getByIds (h : OnlyWrites kinds s s') (hkind : .partitions ∉ kinds)
    (r : PartitionsRequest) (ids : List (List Char)) :
    PartitionsCacheRepository.getByIds hrn r ids s' =
      PartitionsCacheRepository.getByIds hrn r ids s := by
  unfold PartitionsCacheRepository.getByIds
  congr 1
  funext id
  rw [h.valueAt (kindOf_partition hrn r.layerId id r.version) hkind]

theorem partitions (h : OnlyWrites kinds s s') (hkind : .partitions ∉ kinds)
    (r : PartitionsRequest) :
    PartitionsCacheRepository.get hrn r s' = PartitionsCacheRepository.get hrn r s := by
  unfold PartitionsCacheRepository.get
  rw [h.valueAt (kindOf_partitions hrn r.layerId r.version) hkind]
  split
  · rw [h.getByIds hkind]
  · rfl

theorem layerVersions (h : OnlyWrites kinds s s') (hkind : .layerVersions ∉ kinds)
    (version : ℤ) :
    PartitionsCacheRepository.getLayerVersions hrn version s' =
      PartitionsCacheRepository.getLayerVersions hrn version s := by
  unfold PartitionsCacheRepository.getLayerVersions
  rw [h.valueAt (kindOf_layerVersions hrn version) hkind]

theorem data (h : OnlyWrites kinds s s') (hkind : .data ∉ kinds)
    (layerId dataHandle : List Char) :
    DataCacheRepository.get hrn layerId dataHandle s' =
      DataCacheRepository.get hrn layerId dataHandle s := by
  unfold DataCacheRepository.get
  rw [h.valueAt (kindOf_data hrn layerId dataHandle) hkind]

end OnlyWrites

/-! ## Reading back -/

section ReadBack

variable (hrn : List Char)

/-- The URL of another service is not touched. -/
theorem url_put (service other version url : List Char) (s : Store) :
    ApiCacheRepository.get hrn other version (ApiCacheRepository.put hrn service version url s) =
      if other = service then some url else ApiCacheRepository.get hrn other version s := by
  have hkey : ApiCacheRepository.createKey hrn other version =
      ApiCacheRepository.createKey hrn service version ↔ other = service := by
    simp [ApiCacheRepository.createKey]
  unfold ApiCacheRepository.get ApiCacheRepository.put
  rw [valueAt_insert]
  by_cases h : other = service
  · simp [h]
  · simp [hkey, h]

theorem catalog_put (catalog : Catalog) (s : Store) :
    CatalogCacheRepository.get hrn (CatalogCacheRepository.put hrn catalog s) = some catalog := by
  unfold CatalogCacheRepository.get CatalogCacheRepository.put
  rw [valueAt_insert_self]

theorem version_put (version : ℤ) (s : Store) :
    CatalogCacheRepository.getVersion hrn (CatalogCacheRepository.putVersion hrn version s) =
      some version := by
  unfold CatalogCacheRepository.getVersion CatalogCacheRepository.putVersion
  rw [valueAt_insert_self]

theorem data_put (data layerId dataHandle : List Char) (s : Store) :
    DataCacheRepository.get hrn layerId dataHandle
      (DataCacheRepository.put hrn data layerId dataHandle s) = some data := by
  unfold DataCacheRepository.get DataCacheRepository.put
  rw [valueAt_insert_self]

theorem partitionKey_inj (layerId : List Char) (version : Option ℤ) (id other : List Char) :
    PartitionsCacheRepository.partitionKey hrn layerId id version =
      PartitionsCacheRepository.partitionKey hrn layerId other version ↔ id = other := by
  cases version with
  | none => simp [PartitionsCacheRepository.partitionKey]
  | some version => simp [PartitionsCacheRepository.partitionKey]

/-- The ids of a layer are not kept under the key of one of its partitions. -/
theorem partitionKey_ne_partitionsKey (layerId id : List Char) (version : Option ℤ) :
    PartitionsCacheRepository.partitionKey hrn layerId id version ≠
      PartitionsCacheRepository.partitionsKey hrn layerId version := by
  cases version with
  | none => simp [PartitionsCacheRepository.partitionKey, PartitionsCacheRepository.partitionsKey,
      separator]
  | some version =>
    intro h
    have hlast := congrArg List.getLast? h
    simp [PartitionsCacheRepository.partitionKey, PartitionsCacheRepository.partitionsKey]
      at hlast

/-- The partition that is cached under an id. -/
def cachedPartition (r : PartitionsRequest) (id : List Char) (s : Store) : Option Partition :=
  match s.valueAt (PartitionsCacheRepository.partitionKey hrn r.layerId id r.version) with
  | some (.partition p) => some p
  | _ => none

theorem getByIds_eq (r : PartitionsRequest) (ids : List (List Char)) (s : Store) :
    PartitionsCacheRepository.getByIds hrn r ids s =
      ids.filterMap fun id => cachedPartition hrn r id s :=
  rfl

theorem OnlyWrites.cachedPartition {kinds : List Kind} {s s' : Store}
    (h : OnlyWrites kinds s s') (hkind : .partitions ∉ kinds) (r : PartitionsRequest)
    (id : List Char) : cachedPartition hrn r id s' = cachedPartition hrn r id s := by
  unfold CacheKeys.cachedPartition
  rw [h.valueAt (kindOf_partition hrn r.layerId id r.version) hkind]

/-- Of the partitions with one id, the last one is kept. -/
def keptAt (partitions : List Partition) (id : List Char) : Option Partition :=
  partitions.reverse.find? fun p => p.partition = id

/-- What is kept of a list of partitions: each id leads to the last partition that has it. -/
def kept (partitions : List Partition) : List Partition :=
  partitions.filterMap fun p => keptAt partitions p.partition

theorem keptAt_isSome {partitions : List Partition} {p : Partition} (h : p ∈ partitions) :
    (keptAt partitions p.partition).isSome := by
  unfold keptAt
  rw [List.find?_isSome]
  exact ⟨p, List.mem_reverse.mpr h, by simp⟩

theorem mem_of_keptAt {partitions : List Partition} {id : List Char} {p : Partition}
    (h : keptAt partitions id = some p) : p ∈ partitions :=
  List.mem_reverse.mp (List.mem_of_find?_eq_some h)

theorem cachedPartition_put (r : PartitionsRequest) (partitions : List Partition)
    (expiry : Option ℤ) (id : List Char) (s : Store) :
    cachedPartition hrn r id (PartitionsCacheRepository.put hrn r partitions expiry false s) =
      (keptAt partitions id).or (cachedPartition hrn r id s) := by
  -- the last partition is written last: the list is taken apart from its end
  induction partitions using List.reverseRecOn with
  | nil => rfl
  | append_singleton partitions p ih =>
    have hlast : PartitionsCacheRepository.put hrn r (partitions ++ [p]) expiry false s =
        (PartitionsCacheRepository.put hrn r partitions expiry false s).insert
          (PartitionsCacheRepository.partitionKey hrn r.layerId p.partition r.version)
          ⟨.partition p, expiry⟩ := by
      simp [PartitionsCacheRepository.put]
    by_cases h : p.partition = id
    · rw [hlast, cachedPartition, h, valueAt_insert_self]
      simp [keptAt, h]
    · have hkey := mt (partitionKey_inj hrn r.layerId r.version id p.partition).mp (Ne.symm h)
      rw [hlast, cachedPartition, valueAt_insert, if_neg hkey]
      refine Eq.trans ih ?_
      simp [keptAt, h]

theorem onlyWrites_put (r : PartitionsRequest) (partitions : List Partition)
    (expiry : Option ℤ) (allLayer : Bool) (s : Store) :
    OnlyWrites [.partitions] s
      (PartitionsCacheRepository.put hrn r partitions expiry allLayer s) := by
  have hfold : ∀ t : Store, OnlyWrites [.partitions] t
      (PartitionsCacheRepository.put hrn r partitions expiry false t) := by
    induction partitions with
    | nil => exact fun t => .refl t
    | cons p partitions ih => exact fun t => (OnlyWrites.insert (by simp) _ t).trans (ih _)
  cases allLayer with
  | false => exact hfold s
  | true => exact (hfold s).trans (OnlyWrites.insert (by simp) _ _)

/-- **A layer that was put is read back**, up to partitions that share an id. -/
theorem partitions_put (r : PartitionsRequest) (partitions : List Partition)
    (expiry : Option ℤ) (s : Store) :
    PartitionsCacheRepository.get hrn r
      (PartitionsCacheRepository.put hrn r partitions expiry true s) = some (kept partitions) := by
  have hput : PartitionsCacheRepository.put hrn r partitions expiry true s =
      (PartitionsCacheRepository.put hrn r partitions expiry false s).insert
        (PartitionsCacheRepository.partitionsKey hrn r.layerId r.version)
        ⟨.partitionIds (partitions.map Partition.partition), expiry⟩ := rfl
  have hcached (id : List Char) : cachedPartition hrn r id
      (PartitionsCacheRepository.put hrn r partitions expiry true s) =
        (keptAt partitions id).or (cachedPartition hrn r id s) := by
    rw [hput, cachedPartition, valueAt_insert, if_neg (partitionKey_ne_partitionsKey hrn _ _ _)]
    exact cachedPartition_put hrn r partitions expiry id s
  have hids : (PartitionsCacheRepository.put hrn r partitions expiry true s).valueAt
      (PartitionsCacheRepository.partitionsKey hrn r.layerId r.version) =
        some (.partitionIds (partitions.map Partition.partition)) := by
    rw [hput, valueAt_insert_self]
  unfold PartitionsCacheRepository.get
  rw [hids]
  dsimp only
  rw [getByIds_eq, List.filterMap_map]
  congr 1
  refine List.filterMap_congr fun p hp => ?_
  obtain ⟨q, hq⟩ := Option.isSome_iff_exists.mp (keptAt_isSome hp)
  rw [Function.comp_apply, hcached, hq]
  rfl

end ReadBack

end OlpEdgeSdk.Analysis.CacheKeys

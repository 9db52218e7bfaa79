import OlpEdgeSdk.Analysis.CatalogIsolation

/-!
# What clearing some partitions removes

`ClearPartitions` removes by the beginnings of keys, and nothing ends the id or the data handle
that such a beginning ends with. So it takes every entry whose key goes on from there: those of
longer ids and handles, the listing of a version that begins with the id, the versions of the
layers and the service URLs where the layer is called like a version or a service
(`startOf_prefix_iff_overlaps`). It removes what it names and nothing else exactly as long as no
such entry is cached (`clearPartitions_exact_iff`).

SOURCE: PartitionsCacheRepository.cpp:39-52, PartitionsCacheRepository.cpp:162-175,
DataCacheRepository.cpp:28-31
-/

set_option autoImplicit false

namespace OlpEdgeSdk.Analysis.PartitionsCleared

open OlpEdgeSdk.Base OlpEdgeSdk.Model OlpEdgeSdk.Analysis.CacheKeys
open OlpEdgeSdk.Analysis.CatalogIsolation (isColon)

/-! ## The entries of a catalog -/

/-- The entries that the repositories of a catalog write. -/
inductive EntryName where
  | url (service serviceVersion : List Char)
  | catalog
  | latestVersion
  | partition (layerId partitionId : List Char) (version : Option ℤ)
  | listing (layerId : List Char) (version : Option ℤ)
  | layerVersions (catalogVersion : ℤ)
  | data (layerId dataHandle : List Char)

/-- The key of an entry. -/
def EntryName.key (hrn : List Char) : EntryName → List Char
  | .url service serviceVersion => ApiCacheRepository.createKey hrn service serviceVersion
  | .catalog => CatalogCacheRepository.createKey hrn
  | .latestVersion => CatalogCacheRepository.versionKey hrn
  | .partition layerId partitionId version =>
    PartitionsCacheRepository.partitionKey hrn layerId partitionId version
  | .listing layerId version => PartitionsCacheRepository.partitionsKey hrn layerId version
  | .layerVersions catalogVersion => PartitionsCacheRepository.layerVersionsKey hrn catalogVersion
  | .data layerId dataHandle => DataCacheRepository.createKey hrn layerId dataHandle

variable {hrn : List Char} {r : PartitionsRequest} {ids : List (List Char)} {s : Store}

/-- What is named: the entries, of any version, of each listed partition that is cached for the
layer and the version, and the data of its handle. -/
def Named (hrn : List Char) (r : PartitionsRequest) (ids : List (List Char)) (s : Store) :
    EntryName → Prop
  | .partition layerId partitionId _ =>
    layerId = r.layerId ∧ partitionId ∈ ids ∧ ∃ p, cachedPartition hrn r partitionId s = some p
  | .data layerId dataHandle =>
    layerId = r.layerId ∧
      ∃ id ∈ ids, ∃ p, cachedPartition hrn r id s = some p ∧ p.dataHandle = dataHandle
  | _ => False

/-- What is named is removed, and every other entry stays as it is. -/
def ClearsExactly (hrn : List Char) (r : PartitionsRequest) (ids : List (List Char))
    (s : Store) : Prop :=
  ∀ name : EntryName,
    (Named hrn r ids s name →
      (PartitionsCacheRepository.clearPartitions hrn r ids s).find (name.key hrn) = none) ∧
    (¬ Named hrn r ids s name →
      (PartitionsCacheRepository.clearPartitions hrn r ids s).find (name.key hrn) =
        s.find (name.key hrn))

/-! ## What is removed -/

/-- The beginning of the keys that are removed for an id or a handle. -/
def startOf (hrn layerId x : List Char) : List Char :=
  hrn ++ separator ++ layerId ++ separator ++ x

/-- A key begins like those of a partition or of its data. -/
def Begins (hrn : List Char) (r : PartitionsRequest) (p : Partition) (key : List Char) : Prop :=
  startOf hrn r.layerId p.dataHandle <+: key ∨ startOf hrn r.layerId p.partition <+: key

/-- A key is removed for one of some partitions. -/
def Reached (hrn : List Char) (r : PartitionsRequest) (partitions : List Partition)
    (key : List Char) : Prop :=
  ∃ p ∈ partitions, Begins hrn r p key

/-- The two removals for a partition. -/
def clearOne (hrn : List Char) (r : PartitionsRequest) (s : Store) (p : Partition) : Store :=
  (s.removeKeysWithPrefix (startOf hrn r.layerId p.dataHandle)).removeKeysWithPrefix
    (startOf hrn r.layerId p.partition)

theorem clearPartitions_eq (hrn : List Char) (r : PartitionsRequest) (ids : List (List Char))
    (s : Store) : PartitionsCacheRepository.clearPartitions hrn r ids s =
      (PartitionsCacheRepository.getByIds hrn r ids s).foldl (clearOne hrn r) s := rfl

theorem find_removeKeysWithPrefix_of_prefix {start key : List Char} (h : start <+: key)
    (s : Store) : (s.removeKeysWithPrefix start).find key = none := by
  unfold Store.removeKeysWithPrefix
  rw [SortedMap.find_filterKeys, if_neg]
  simpa using h

theorem find_removeKeysWithPrefix_of_not {start key : List Char} (h : ¬ start <+: key)
    (s : Store) : (s.removeKeysWithPrefix start).find key = s.find key := by
  unfold Store.removeKeysWithPrefix
  rw [SortedMap.find_filterKeys, if_pos]
  rw [Bool.not_eq_true', Bool.eq_false_iff]
  intro hprefix
  exact h (List.isPrefixOf_iff_prefix.mp hprefix)

theorem find_clearOne_of_begins {p : Partition} {key : List Char} (h : Begins hrn r p key)
    (s : Store) : (clearOne hrn r s p).find key = none := by
  unfold clearOne
  by_cases hpartition : startOf hrn r.layerId p.partition <+: key
  · exact find_removeKeysWithPrefix_of_prefix hpartition _
  · rw [find_removeKeysWithPrefix_of_not hpartition]
    exact find_removeKeysWithPrefix_of_prefix (h.resolve_right hpartition) s

theorem find_clearOne_of_not {p : Partition} {key : List Char} (h : ¬ Begins hrn r p key)
    (s : Store) : (clearOne hrn r s p).find key = s.find key := by
  unfold Begins at h
  rw [not_or] at h
  unfold clearOne
  rw [find_removeKeysWithPrefix_of_not h.2, find_removeKeysWithPrefix_of_not h.1]

/-- What is not there is not brought back. -/
theorem find_clearOne_of_none (p : Partition) {key : List Char} (h : s.find key = none) :
    (clearOne hrn r s p).find key = none := by
  by_cases hbegins : Begins hrn r p key
  · exact find_clearOne_of_begins hbegins s
  · rw [find_clearOne_of_not hbegins, h]

theorem find_foldl_clearOne_of_none (partitions : List Partition) {key : List Char}
    (h : s.find key = none) : (partitions.foldl (clearOne hrn r) s).find key = none := by
  induction partitions generalizing s with
  | nil => exact h
  | cons p partitions ih => exact ih (find_clearOne_of_none p h)

theorem find_clearPartitions_of_reached {key : List Char}
    (h : Reached hrn r (PartitionsCacheRepository.getByIds hrn r ids s) key) :
    (PartitionsCacheRepository.clearPartitions hrn r ids s).find key = none := by
  rw [clearPartitions_eq]
  generalize PartitionsCacheRepository.getByIds hrn r ids s = partitions at h
  induction partitions generalizing s with
  | nil =>
    obtain ⟨p, hp, -⟩ := h
    cases hp
  | cons p partitions ih =>
    rw [List.foldl_cons]
    by_cases hbegins : Begins hrn r p key
    · apply find_foldl_clearOne_of_none
      exact find_clearOne_of_begins hbegins s
    · obtain ⟨q, hq, hbeginsq⟩ := h
      apply ih
      rw [List.mem_cons] at hq
      rcases hq with rfl | hmem
      · exact absurd hbeginsq hbegins
      · exact ⟨q, hmem, hbeginsq⟩

theorem find_clearPartitions_of_not {key : List Char}
    (h : ¬ Reached hrn r (PartitionsCacheRepository.getByIds hrn r ids s) key) :
    (PartitionsCacheRepository.clearPartitions hrn r ids s).find key = s.find key := by
  rw [clearPartitions_eq]
  generalize PartitionsCacheRepository.getByIds hrn r ids s = partitions at h
  induction partitions generalizing s with
  | nil => rfl
  | cons p partitions ih =>
    rw [List.foldl_cons, ih]
    · apply find_clearOne_of_not
      intro hbegins
      exact h ⟨p, List.mem_cons_self, hbegins⟩
    · rintro ⟨q, hq, hbegins⟩
      exact h ⟨q, List.mem_cons_of_mem p hq, hbegins⟩

theorem mem_getByIds {p : Partition} :
    p ∈ PartitionsCacheRepository.getByIds hrn r ids s ↔
      ∃ id ∈ ids, cachedPartition hrn r id s = some p := by
  rw [getByIds_eq, List.mem_filterMap]

/-- The data of a partition that is cleared begins like its data. -/
theorem reached_of_named_data {layerId dataHandle : List Char}
    (h : Named hrn r ids s (.data layerId dataHandle)) :
    Reached hrn r (PartitionsCacheRepository.getByIds hrn r ids s)
      ((EntryName.data layerId dataHandle).key hrn) := by
  obtain ⟨rfl, id, hid, p, hp, rfl⟩ := h
  refine ⟨p, mem_getByIds.mpr ⟨id, hid, hp⟩, Or.inl ?_⟩
  exact List.prefix_append _ _

/-- So does the entry of a partition under its own id. -/
theorem reached_of_own {id : List Char} {p : Partition} (hid : id ∈ ids)
    (hp : cachedPartition hrn r id s = some p) (hown : p.partition = id) (version : Option ℤ) :
    Reached hrn r (PartitionsCacheRepository.getByIds hrn r ids s)
      ((EntryName.partition r.layerId id version).key hrn) := by
  refine ⟨p, mem_getByIds.mpr ⟨id, hid, hp⟩, Or.inr ?_⟩
  subst hown
  unfold EntryName.key PartitionsCacheRepository.partitionKey startOf
  simp

/-- **What it names and nothing else.** For any cache, layer, version and ids: exactly what is
named is removed if and only if no other entry that is cached has a key that begins with the
layer and the id or the handle of a partition that is read for the ids, and each entry of a
listed id under which one is read has such a key. -/
theorem clearPartitions_exact_iff (hrn : List Char) (r : PartitionsRequest)
    (ids : List (List Char)) (s : Store) :
    ClearsExactly hrn r ids s ↔
      (∀ name : EntryName, s.find (name.key hrn) ≠ none →
        Reached hrn r (PartitionsCacheRepository.getByIds hrn r ids s) (name.key hrn) →
        Named hrn r ids s name) ∧
      (∀ id ∈ ids, ∀ p version, cachedPartition hrn r id s = some p →
        s.find ((EntryName.partition r.layerId id version).key hrn) ≠ none →
        Reached hrn r (PartitionsCacheRepository.getByIds hrn r ids s)
          ((EntryName.partition r.layerId id version).key hrn)) := by
  constructor
  · intro hexact
    constructor
    · intro name hpresent hreached
      by_contra hnamed
      have hstays := (hexact name).2 hnamed
      rw [find_clearPartitions_of_reached hreached] at hstays
      exact hpresent hstays.symm
    · intro id hid p version hp hpresent
      by_contra hreached
      have hgone := (hexact (.partition r.layerId id version)).1 ⟨rfl, hid, p, hp⟩
      rw [find_clearPartitions_of_not hreached] at hgone
      exact hpresent hgone
  · rintro ⟨hothers, hown⟩ name
    -- an entry that is not there is not there afterwards
    have habsent : s.find (name.key hrn) = none →
        (PartitionsCacheRepository.clearPartitions hrn r ids s).find (name.key hrn) = none := by
      intro hnone
      rw [clearPartitions_eq]
      exact find_foldl_clearOne_of_none _ hnone
    constructor
    · intro hnamed
      by_cases hpresent : s.find (name.key hrn) = none
      · exact habsent hpresent
      · apply find_clearPartitions_of_reached
        cases name with
        | partition layerId partitionId version =>
          obtain ⟨rfl, hid, p, hp⟩ := hnamed
          exact hown partitionId hid p version hp hpresent
        | data layerId dataHandle => exact reached_of_named_data hnamed
        | url | catalog | latestVersion | listing | layerVersions => cases hnamed
    · intro hnamed
      by_cases hpresent : s.find (name.key hrn) = none
      · rw [habsent hpresent, hpresent]
      · apply find_clearPartitions_of_not
        intro hreached
        exact hnamed (hothers name hpresent hreached)

/-- Two partitions, the id of the second longer than that of the first by a digit, and the id of
the first the version of the layer: clearing the first removes the second and the listing. -/
theorem clearPartitions_takes_more :
    let r : PartitionsRequest := ⟨"layer".toList, some 1, none, .onlineIfNotFound⟩
    let s := CacheRepositories.Operation.apply "hrn".toList (.putPartitions r
      [⟨"1".toList, "a".toList, []⟩, ⟨"12".toList, "b".toList, []⟩] none true) SortedMap.empty
    let cleared := PartitionsCacheRepository.clearPartitions "hrn".toList r ["1".toList] s
    let longer := EntryName.partition r.layerId "12".toList r.version
    let listing := EntryName.listing r.layerId r.version
    ((s.find (longer.key "hrn".toList)).isSome ∧ cleared.find (longer.key "hrn".toList) = none) ∧
      ((s.find (listing.key "hrn".toList)).isSome ∧
        cleared.find (listing.key "hrn".toList) = none) ∧
      ¬ ClearsExactly "hrn".toList r ["1".toList] s := by
  intro r s cleared longer listing
  have hlonger : (s.find (longer.key "hrn".toList)).isSome ∧
      cleared.find (longer.key "hrn".toList) = none := by
    decide
  refine ⟨hlonger, by decide, ?_⟩
  intro hexact
  have hstays := (hexact longer).2 (by
    rintro ⟨-, hid, -⟩
    exact absurd hid (by decide))
  have hgone : s.find (longer.key "hrn".toList) = none := hstays.symm.trans hlonger.2
  exact absurd hlonger.1 (by rw [hgone]; decide)

/-! ## Names without colons -/

/-- The names of an entry hold no colon. -/
def EntryName.ColonFree : EntryName → Prop
  | .url service serviceVersion => Free isColon service ∧ Free isColon serviceVersion
  | .catalog | .latestVersion | .layerVersions _ => True
  | .partition layerId partitionId _ => Free isColon layerId ∧ Free isColon partitionId
  | .listing layerId _ => Free isColon layerId
  | .data layerId dataHandle => Free isColon layerId ∧ Free isColon dataHandle

/-- An entry that an id or a handle of a layer is the beginning of. -/
def Overlaps (layer x : List Char) : EntryName → Prop
  | .url service serviceVersion => layer = service ∧ x <+: serviceVersion
  | .catalog | .latestVersion => False
  | .partition layerId partitionId _ => layer = layerId ∧ x <+: partitionId
  | .listing layerId (some version) => layer = layerId ∧ x <+: decimal version
  | .listing layerId none => layer = layerId ∧ x = []
  | .layerVersions catalogVersion => layer = decimal catalogVersion ∧ x <+: "layerVersions".toList
  | .data layerId dataHandle => layer = layerId ∧ x <+: dataHandle

theorem startOf_prefix_iff {hrn layer x first rest : List Char} (hlayer : Free isColon layer)
    (hfirst : Free isColon first) :
    startOf hrn layer x <+: hrn ++ separator ++ first ++ separator ++ rest ↔
      layer = first ∧ x <+: rest := by
  have hstops : ∀ l : List Char, Stops isColon (separator ++ l) := fun l => stops_cons rfl _
  unfold startOf
  simp only [List.append_assoc, List.prefix_append_right_inj]
  constructor
  · rintro ⟨more, hmore⟩
    rw [List.append_assoc, List.append_assoc] at hmore
    obtain ⟨heq, hrest⟩ := append_inj_of_free hlayer hfirst (hstops _) (hstops _) hmore
    exact ⟨heq, more, List.append_cancel_left hrest⟩
  · rintro ⟨rfl, more, rfl⟩
    exact ⟨more, by simp⟩

theorem prefix_append_iff_of_free {x second rest : List Char} (hx : Free isColon x)
    (hrest : Stops isColon rest) : x <+: second ++ rest ↔ x <+: second :=
  ⟨prefix_of_free hx hrest, fun h => h.trans (List.prefix_append second rest)⟩

/-- A name without a separator in it is not reached. -/
theorem not_startOf_prefix {hrn layer x last : List Char} (hlast : Free isColon last) :
    ¬ startOf hrn layer x <+: hrn ++ separator ++ last := by
  unfold startOf
  simp only [List.append_assoc, List.prefix_append_right_inj]
  intro hprefix
  have hcolon : ':' ∈ last := hprefix.subset (by simp [separator])
  exact absurd (hlast ':' hcolon) (by decide)

/-- **The entries that are reached**, for names without colons: those of the layer whose id,
handle or version goes on from the id or handle `x`, and, where the layer is called like a
version or a service, the versions of the layers and the URLs. -/
theorem startOf_prefix_iff_overlaps (hrn : List Char) {layer x : List Char} {name : EntryName}
    (hlayer : Free isColon layer) (hx : Free isColon x) (hname : name.ColonFree) :
    startOf hrn layer x <+: name.key hrn ↔ Overlaps layer x name := by
  cases name with
  | url service serviceVersion =>
    have hkey : EntryName.key hrn (.url service serviceVersion) =
        hrn ++ separator ++ service ++ separator ++ (serviceVersion ++ "::api".toList) :=
      List.append_assoc _ _ _
    have hstops : Stops isColon "::api".toList := stops_cons rfl _
    rw [hkey, startOf_prefix_iff hlayer hname.1, prefix_append_iff_of_free hx hstops]
    rfl
  | catalog =>
    have hkey : EntryName.key hrn .catalog = hrn ++ separator ++ "catalog".toList :=
      (List.append_assoc hrn separator _).symm
    rw [hkey]
    exact iff_of_false ( not_startOf_prefix (by simp [Free, isColon])) id
  | latestVersion =>
    have hkey : EntryName.key hrn .latestVersion = hrn ++ separator ++ "latestVersion".toList :=
      (List.append_assoc hrn separator _).symm
    rw [hkey]
    exact iff_of_false ( not_startOf_prefix (by simp [Free, isColon])) id
  | partition layerId partitionId version =>
    obtain ⟨rest, hkey⟩ : ∃ rest, EntryName.key hrn (.partition layerId partitionId version) =
        hrn ++ separator ++ layerId ++ separator ++ (partitionId ++ (separator ++ rest)) := by
      cases version with
      | none => exact ⟨[], by simp [EntryName.key, PartitionsCacheRepository.partitionKey]⟩
      | some version =>
        exact ⟨decimal version ++ "::partition".toList, by
          simp [EntryName.key, PartitionsCacheRepository.partitionKey]⟩
    have hstops : Stops isColon (separator ++ rest) := stops_cons rfl _
    rw [hkey, startOf_prefix_iff hlayer hname.1, prefix_append_iff_of_free hx hstops]
    rfl
  | listing layerId version =>
    cases version with
    | none =>
      have hkey : EntryName.key hrn (.listing layerId none) =
          hrn ++ separator ++ layerId ++ separator ++ [] := rfl
      rw [hkey, startOf_prefix_iff hlayer hname, List.prefix_nil]
      rfl
    | some version =>
      have hkey : EntryName.key hrn (.listing layerId (some version)) =
          hrn ++ separator ++ layerId ++ separator ++
            (decimal version ++ "::partitions".toList) := rfl
      have hstops : Stops isColon "::partitions".toList := stops_cons rfl _
      rw [hkey, startOf_prefix_iff hlayer hname, prefix_append_iff_of_free hx hstops]
      rfl
  | layerVersions catalogVersion =>
    have hkey : EntryName.key hrn (.layerVersions catalogVersion) =
        hrn ++ separator ++ decimal catalogVersion ++ separator ++ "layerVersions".toList :=
      (List.append_assoc _ separator _).symm
    rw [hkey, startOf_prefix_iff hlayer (CatalogIsolation.free_decimal catalogVersion)]
    rfl
  | data layerId dataHandle =>
    have hkey : EntryName.key hrn (.data layerId dataHandle) =
        hrn ++ separator ++ layerId ++ separator ++ (dataHandle ++ "::Data".toList) :=
      List.append_assoc _ _ _
    have hstops : Stops isColon "::Data".toList := stops_cons rfl _
    rw [hkey, startOf_prefix_iff hlayer hname.1, prefix_append_iff_of_free hx hstops]
    rfl

end OlpEdgeSdk.Analysis.PartitionsCleared

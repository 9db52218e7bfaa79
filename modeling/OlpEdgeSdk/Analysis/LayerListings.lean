import OlpEdgeSdk.Analysis.CatalogIsolation

/-!
# Listings of a layer in a cache that drops entries

A full layer is kept as the list of its ids and one entry for each partition. The list under
the key of a layer and a version is always that of the last full `Put` for them: no other key
spells the same. The entries of the partitions come and go on their own, so what is read back
is the whole listing exactly as long as each of them is there.
-/

set_option autoImplicit false

namespace OlpEdgeSdk.Analysis.LayerListings

open OlpEdgeSdk.Base OlpEdgeSdk.Model OlpEdgeSdk.Model.CacheRepositories
open OlpEdgeSdk.Model.PartitionsCacheRepository OlpEdgeSdk.Analysis.CacheKeys

/-! ## Keys -/

/-- **The key of a listing** spells the layer and the version. -/
theorem partitionsKey_inj {hrn layerId layerId' : List Char} {version version' : Option ℤ}
    (h : partitionsKey hrn layerId version = partitionsKey hrn layerId' version') :
    layerId = layerId' ∧ version = version' := by
  have hends : ∀ (l : List Char) (v : ℤ),
      (partitionsKey hrn l (some v)).getLast? = some 's' := by
    intro l v
    simp [partitionsKey]
  have hcolon : ∀ l : List Char, (partitionsKey hrn l none).getLast? = some ':' := by
    intro l
    unfold partitionsKey
    dsimp only
    rw [List.append_nil, List.getLast?_append]
    rfl
  cases version with
  | none =>
    cases version' with
    | none =>
      simp only [partitionsKey, List.append_nil, List.append_assoc] at h
      exact ⟨List.append_cancel_right (List.append_cancel_left (List.append_cancel_left h)), rfl⟩
    | some v =>
      have hlast := hends layerId' v
      rw [← h, hcolon layerId] at hlast
      exact absurd hlast (by decide)
  | some v =>
    cases version' with
    | none =>
      have hlast := hends layerId v
      rw [h, hcolon layerId'] at hlast
      exact absurd hlast (by decide)
    | some v' =>
      simp only [partitionsKey, ← List.append_assoc] at h
      have hrest := List.append_cancel_right h
      simp only [List.append_assoc] at hrest
      have hsame := congrArg List.reverse
        (List.append_cancel_left (List.append_cancel_left hrest))
      simp only [List.reverse_append] at hsame
      -- from behind, the version ends at the first colon
      have hfree : ∀ n : ℤ, Free CatalogIsolation.isColon (decimal n).reverse := by
        intro n c hc
        exact CatalogIsolation.free_decimal n c (List.mem_reverse.mp hc)
      have hstops : ∀ l : List Char,
          Stops CatalogIsolation.isColon (separator.reverse ++ l.reverse) := by
        intro l
        exact stops_cons rfl _
      rw [List.append_assoc, List.append_assoc] at hsame
      obtain ⟨hversion, hlayer⟩ := append_inj_of_free (hfree v) (hfree v') (hstops layerId)
        (hstops layerId') hsame
      have hdecimal := decimal_injective (List.reverse_injective hversion)
      have hlayers := List.reverse_injective (List.append_cancel_left hlayer)
      exact ⟨hlayers, by rw [hdecimal]⟩

/-! ## The list under the key of a listing -/

/-- Entries are only lost. -/
def Loses (s s' : Store) : Prop := ∀ key, s'.valueAt key = s.valueAt key ∨ s'.valueAt key = none

namespace Loses

variable {s s' s'' : Store}

theorem refl (s : Store) : Loses s s := fun _ => Or.inl rfl

theorem trans (h : Loses s s') (h' : Loses s' s'') : Loses s s'' := by
  intro key
  rcases h' key with heq | hnone
  · rw [heq]
    exact h key
  · exact Or.inr hnone

theorem filterKeys (keep : List Char → Bool) (s : Store) : Loses s (s.filterKeys keep) := by
  intro key
  unfold Store.valueAt
  rw [SortedMap.find_filterKeys]
  split
  · exact Or.inl rfl
  · exact Or.inr rfl

theorem removeKeysWithPrefix ( start : List Char) (s : Store) :
    Loses s (s.removeKeysWithPrefix start) :=
  filterKeys _ s

theorem clearPartitions (hrn : List Char) (r : PartitionsRequest) (ids : List (List Char))
    (s : Store) : Loses s (PartitionsCacheRepository.clearPartitions hrn r ids s) := by
  unfold PartitionsCacheRepository.clearPartitions
  generalize PartitionsCacheRepository.getByIds hrn r ids s = partitions
  induction partitions generalizing s with
  | nil => exact refl s
  | cons p partitions ih =>
    exact ((removeKeysWithPrefix _ s).trans (removeKeysWithPrefix _ _)).trans (ih _)

end Loses

variable {hrn : List Char} {r : PartitionsRequest}

/-- The entries of partitions are of the type of partitions. -/
theorem valueAt_put_partitions (hrn : List Char) (r' : PartitionsRequest)
    (partitions : List Partition) (expiry : Option ℤ) (s : Store) (key : List Char) :
    (put hrn r' partitions expiry false s).valueAt key = s.valueAt key ∨
      ∃ p, (put hrn r' partitions expiry false s).valueAt key = some (.partition p) := by
  induction partitions generalizing s with
  | nil => exact Or.inl rfl
  | cons p partitions ih =>
    have hcons : put hrn r' (p :: partitions) expiry false s =
        put hrn r' partitions expiry false
          (s.insert (partitionKey hrn r'.layerId p.partition r'.version) ⟨.partition p, expiry⟩) :=
      rfl
    rw [hcons]
    rcases ih (s.insert (partitionKey hrn r'.layerId p.partition r'.version)
      ⟨.partition p, expiry⟩) with hsame | hpartition
    · rw [hsame, valueAt_insert]
      split
      · exact Or.inr ⟨p, rfl⟩
      · exact Or.inl rfl
    · exact Or.inr hpartition

/-- What the last full `Put` for a layer and a version has listed, one event further. -/
def listedAfter (r : PartitionsRequest) (listed : Option (List (List Char))) :
    CacheEvent → Option (List (List Char))
  | .call (.putPartitions r' partitions _ true) =>
    if r'.layerId = r.layerId ∧ r'.version = r.version then
      some (partitions.map Partition.partition)
    else listed
  | _ => listed

/-- The ids of the last full `Put` for a layer and a version. -/
def lastListed (r : PartitionsRequest) (events : List CacheEvent) : Option (List (List Char)) :=
  events.foldl (listedAfter r) none

/-- The cache after some events. -/
def cacheAfter (hrn : List Char) (events : List CacheEvent) : Store :=
  events.foldl (fun s event => event.apply hrn s) SortedMap.empty

/-- A list under the key of the layer and the version is the one that was listed last. -/
def Lists (hrn : List Char) (r : PartitionsRequest) (listed : Option (List (List Char)))
    (s : Store) : Prop :=
  ∀ ids, s.valueAt (partitionsKey hrn r.layerId r.version) = some (.partitionIds ids) →
    listed = some ids

theorem Lists.of_loses {listed : Option (List (List Char))} {s s' : Store}
    (h : Lists hrn r listed s) (hloses : Loses s s') : Lists hrn r listed s' := by
  intro ids hids
  rcases hloses (partitionsKey hrn r.layerId r.version) with heq | hnone
  · exact h ids (heq.symm.trans hids)
  · rw [hnone] at hids
    cases hids

/-- A write of another kind of object leaves the list. -/
theorem Lists.of_onlyWrites {listed : Option (List (List Char))} {s s' : Store}
    (h : Lists hrn r listed s) {kinds : List Kind} (hwrites : OnlyWrites kinds s s')
    (hkind : .partitions ∉ kinds) : Lists hrn r listed s' := by
  intro ids hids
  rw [hwrites.valueAt (kindOf_partitions hrn r.layerId r.version) hkind] at hids
  exact h ids hids

theorem Lists.of_put {listed : Option (List (List Char))} {s : Store}
    (h : Lists hrn r listed s) (r' : PartitionsRequest) (partitions : List Partition)
    (expiry : Option ℤ) : Lists hrn r listed (put hrn r' partitions expiry false s) := by
  intro ids hids
  rcases valueAt_put_partitions hrn r' partitions expiry s
    (partitionsKey hrn r.layerId r.version) with hsame | ⟨p, hp⟩
  · exact h ids (hsame.symm.trans hids)
  · rw [hp] at hids
    cases hids

/-- What an event that puts no partitions does: entries are lost, or objects of another kind are
written. -/
theorem loses_or_onlyWrites {event : CacheEvent}
    (h : ∀ r' partitions expiry allLayer,
      event ≠ .call (.putPartitions r' partitions expiry allLayer)) (s : Store) :
    Loses s (event.apply hrn s) ∨
      ∃ kinds, .partitions ∉ kinds ∧ OnlyWrites kinds s (event.apply hrn s) := by
  have hwrites : ∀ {kind : Kind} {s' : Store}, .partitions ∉ [kind] → OnlyWrites [kind] s s' →
      Loses s s' ∨ ∃ kinds, .partitions ∉ kinds ∧ OnlyWrites kinds s s' :=
    fun hkind hwrites => Or.inr ⟨_, hkind, hwrites⟩
  cases event with
  | drop lost => exact Or.inl (Loses.filterKeys _ s)
  | call operation =>
    cases operation with
    | putUrl service version url =>
      exact hwrites (by simp) (OnlyWrites.insert (kindOf_url hrn service version) _ s)
    | putCatalog catalog =>
      exact hwrites (by simp) (OnlyWrites.insert (kindOf_catalog hrn) _ s)
    | putVersion version =>
      exact hwrites (by simp) (OnlyWrites.insert (kindOf_version hrn) _ s)
    | clearCatalog => exact Or.inl (Loses.removeKeysWithPrefix _ s)
    | putPartitions r' partitions expiry allLayer =>
      exact absurd rfl (h r' partitions expiry allLayer)
    | putLayerVersions catalogVersion layerVersions =>
      exact hwrites (by simp) (OnlyWrites.insert (kindOf_layerVersions hrn catalogVersion) _ s)
    | clearLayer layerId => exact Or.inl (Loses.removeKeysWithPrefix _ s)
    | clearPartitions r' ids => exact Or.inl (Loses.clearPartitions hrn r' ids s)
    | putData data layerId dataHandle =>
      exact hwrites (by simp) (OnlyWrites.insert (kindOf_data hrn layerId dataHandle) _ s)
    | clearData layerId dataHandle => exact Or.inl (Loses.removeKeysWithPrefix _ s)
    | get read => exact Or.inl (Loses.refl s)

/-- A full `Put` lists its partitions for its layer and version. -/
theorem Lists.of_fullPut {listed : Option (List (List Char))} {s : Store}
    (h : Lists hrn r listed s) (r' : PartitionsRequest) (partitions : List Partition)
    (expiry : Option ℤ) :
    Lists hrn r (listedAfter r listed (.call (.putPartitions r' partitions expiry true)))
      (put hrn r' partitions expiry true s) := by
  intro ids hids
  have hput : put hrn r' partitions expiry true s = (put hrn r' partitions expiry false s).insert
      (partitionsKey hrn r'.layerId r'.version)
      ⟨.partitionIds (partitions.map Partition.partition), expiry⟩ := rfl
  rw [hput, valueAt_insert] at hids
  show (if r'.layerId = r.layerId ∧ r'.version = r.version then
    some (partitions.map Partition.partition) else listed) = some ids
  by_cases hkey : partitionsKey hrn r.layerId r.version =
      partitionsKey hrn r'.layerId r'.version
  · obtain ⟨hlayer, hversion⟩ := partitionsKey_inj hkey
    rw [if_pos hkey, Option.some.injEq, CacheValue.partitionIds.injEq] at hids
    rw [if_pos ⟨hlayer.symm, hversion.symm⟩, hids]
  · rw [if_neg hkey] at hids
    rw [if_neg]
    · exact h.of_put r' partitions expiry ids hids
    · rintro ⟨hlayer, hversion⟩
      rw [hlayer, hversion] at hkey
      exact hkey rfl

/-- **Step.** The list stays that of the last full `Put`. -/
theorem lists_apply {listed : Option (List (List Char))} {s : Store}
    (h : Lists hrn r listed s) (event : CacheEvent) :
    Lists hrn r (listedAfter r listed event) (event.apply hrn s) := by
  by_cases hput : ∃ r' partitions expiry allLayer,
      event = .call (.putPartitions r' partitions expiry allLayer)
  · obtain ⟨r', partitions, expiry, allLayer, rfl⟩ := hput
    cases allLayer with
    | false => exact h.of_put r' partitions expiry
    | true => exact h.of_fullPut r' partitions expiry
  · simp only [not_exists] at hput
    have hlisted : listedAfter r listed event = listed := by
      unfold listedAfter
      split
      · exact absurd rfl (hput _ _ _ _)
      · rfl
    rw [hlisted]
    rcases loses_or_onlyWrites hput s with hloses | ⟨kinds, hkinds, hwrites⟩
    · exact h.of_loses hloses
    · exact h.of_onlyWrites hwrites hkinds

/-- **Run.** -/
theorem lists_cacheAfter (hrn : List Char) (r : PartitionsRequest) (events : List CacheEvent) :
    Lists hrn r (lastListed r events) (cacheAfter hrn events) := by
  have hrun : ∀ (events : List CacheEvent) (listed : Option (List (List Char))) (s : Store),
      Lists hrn r listed s →
      Lists hrn r (events.foldl (listedAfter r) listed)
        (events.foldl (fun s event => event.apply hrn s) s) := by
    intro events
    induction events with
    | nil => exact fun _ _ h => h
    | cons event events ih => exact fun _ _ h => ih _ _ (lists_apply h event)
  apply hrun
  rintro ids ⟨⟩

/-! ## The entries of the partitions -/

/-- The entry under the key of a partition is a partition with that id. -/
def HasOwn (hrn : List Char) (r : PartitionsRequest) (s : Store) (id : List Char) : Prop :=
  ∃ p, s.valueAt (partitionKey hrn r.layerId id r.version) = some (.partition p) ∧
    p.partition = id

/-- One partition read after others. -/
def readNext (hrn : List Char) (r : PartitionsRequest) (s : Store)
    (cachedPartitions : List Partition) (id : List Char) : Except CastFault (List Partition) :=
  match s.valueAt (partitionKey hrn r.layerId id r.version) with
  | none => .ok cachedPartitions
  | some (.partition p) => .ok (cachedPartitions ++ [p])
  | some _ => .error .badAnyCast

/-- A read that goes on has the partition, if there is one. -/
theorem readNext_ok {s : Store} {cachedPartitions ps : List Partition} {id : List Char}
    (h : readNext hrn r s cachedPartitions id = .ok ps) :
    ps = cachedPartitions ++ (cachedPartition hrn r id s).toList := by
  unfold readNext at h
  unfold cachedPartition
  cases hvalue : s.valueAt (partitionKey hrn r.layerId id r.version) with
  | none =>
    rw [hvalue] at h
    cases h
    exact (List.append_nil _).symm
  | some value =>
    rw [hvalue] at h
    cases value with
    | partition p =>
      cases h
      rfl
    | url | catalog | version | partitionIds | layerVersions | data => cases h

theorem readNext_of_hasOwn {s : Store} {id : List Char} (h : HasOwn hrn r s id) :
    ∃ p, p.partition = id ∧ ∀ cachedPartitions,
      readNext hrn r s cachedPartitions id = .ok (cachedPartitions ++ [p]) := by
  obtain ⟨p, hvalue, hid⟩ := h
  refine ⟨p, hid, fun cachedPartitions => ?_⟩
  unfold readNext
  rw [hvalue]

theorem hasOwn_of_cachedPartition {s : Store} {id : List Char} {p : Partition}
    (h : cachedPartition hrn r id s = some p) (hid : p.partition = id) : HasOwn hrn r s id := by
  unfold cachedPartition at h
  split at h
  · rename_i q hvalue
    cases h
    exact ⟨p, hvalue, hid⟩
  · cases h

/-- What is read of some partitions, if nothing of another type is among them. -/
theorem getByIdsOrThrow_ok {ids : List (List Char)} {s : Store} {ps : List Partition}
    (h : getByIdsOrThrow hrn r ids s = .ok ps) : ps = getByIds hrn r ids s := by
  have hfrom : ∀ (ids : List (List Char)) (cachedPartitions : List Partition),
      ids.foldlM (readNext hrn r s) cachedPartitions = .ok ps →
      ps = cachedPartitions ++ ids.filterMap fun id => cachedPartition hrn r id s := by
    intro ids
    induction ids with
    | nil =>
      intro cachedPartitions hnil
      cases hnil
      exact (List.append_nil _).symm
    | cons id ids ih =>
      intro cachedPartitions hcons
      rw [List.foldlM_cons] at hcons
      cases hnext : readNext hrn r s cachedPartitions id with
      | error fault =>
        rw [hnext] at hcons
        cases hcons
      | ok read =>
        rw [hnext] at hcons
        have hrest := ih read hcons
        rw [readNext_ok hnext, List.append_assoc] at hrest
        rw [hrest, List.filterMap_cons]
        cases cachedPartition hrn r id s <;> rfl
  exact hfrom ids [] h

/-- A partition that is not there makes the list shorter. -/
theorem hasOwn_of_getByIds {ids : List (List Char)} {s : Store}
    (h : (getByIds hrn r ids s).map Partition.partition = ids) :
    ∀ id ∈ ids, HasOwn hrn r s id := by
  rw [getByIds_eq] at h
  induction ids with
  | nil => rintro id ⟨⟩
  | cons id ids ih =>
    cases hfound : cachedPartition hrn r id s with
    | none =>
      rw [List.filterMap_cons_none (f := fun id => cachedPartition hrn r id s) hfound] at h
      have hlength := congrArg List.length h
      have hshort := List.length_filterMap_le (cachedPartition hrn r · s) ids
      rw [List.length_map, List.length_cons] at hlength
      omega
    | some p =>
      rw [List.filterMap_cons_some (f := fun id => cachedPartition hrn r id s) hfound,
        List.map_cons, List.cons.injEq] at h
      intro id' hid'
      rw [List.mem_cons] at hid'
      rcases hid' with rfl | hmem
      · exact hasOwn_of_cachedPartition hfound h.1
      · exact ih h.2 id' hmem

/-- With each of them there, the partitions are read one by one. -/
theorem getByIdsOrThrow_of_hasOwn {ids : List (List Char)} {s : Store}
    (h : ∀ id ∈ ids, HasOwn hrn r s id) :
    ∃ ps, getByIdsOrThrow hrn r ids s = .ok ps ∧ ps.map Partition.partition = ids := by
  have hfrom : ∀ (ids : List (List Char)) (cachedPartitions : List Partition),
      (∀ id ∈ ids, HasOwn hrn r s id) →
      ∃ ps, ids.foldlM (readNext hrn r s) cachedPartitions = .ok (cachedPartitions ++ ps) ∧
        ps.map Partition.partition = ids := by
    intro ids
    induction ids with
    | nil =>
      intro cachedPartitions _
      exact ⟨[], by rw [List.append_nil]; rfl, rfl⟩
    | cons id ids ih =>
      intro cachedPartitions hall
      obtain ⟨p, hid, hnext⟩ := readNext_of_hasOwn (hall id List.mem_cons_self)
      obtain ⟨ps, hps, hids⟩ := ih (cachedPartitions ++ [p])
        (fun other hmem => hall other (List.mem_cons_of_mem _ hmem))
      refine ⟨p :: ps, ?_, ?_⟩
      · rw [List.foldlM_cons, hnext]
        rw [List.append_assoc] at hps
        exact hps
      · rw [List.map_cons, hid, hids]
  exact hfrom ids [] h

/-- Some partitions are read as they are listed if and only if each of them is there. -/
theorem getByIdsOrThrow_whole_iff (hrn : List Char) (r : PartitionsRequest)
    (ids : List (List Char)) (s : Store) :
    (∃ ps, getByIdsOrThrow hrn r ids s = .ok ps ∧ ps.map Partition.partition = ids) ↔
      ∀ id ∈ ids, HasOwn hrn r s id := by
  refine ⟨?_, getByIdsOrThrow_of_hasOwn⟩
  rintro ⟨ps, hps, hids⟩
  apply hasOwn_of_getByIds
  rw [← getByIdsOrThrow_ok hps]
  exact hids

/-! ## What a listing is read as -/

/-- **All or nothing.** After any operations of the repositories of a catalog, and whatever the
cache has dropped between them, a layer is read as none or as exactly the partitions of the
last full `Put` for it if and only if there is no list for it, or its list is there with the
entry of each partition of it. -/
theorem getOrThrow_whole_iff (hrn : List Char) (r : PartitionsRequest)
    (events : List CacheEvent) :
    (getOrThrow hrn r (cacheAfter hrn events) = .ok none ∨
      ∃ ps, getOrThrow hrn r (cacheAfter hrn events) = .ok (some ps) ∧
        lastListed r events = some (ps.map Partition.partition)) ↔
    ((cacheAfter hrn events).valueAt (partitionsKey hrn r.layerId r.version) = none ∨
      ∃ ids, (cacheAfter hrn events).valueAt (partitionsKey hrn r.layerId r.version) =
          some (.partitionIds ids) ∧
        ∀ id ∈ ids, HasOwn hrn r (cacheAfter hrn events) id) := by
  have hlists := lists_cacheAfter hrn r events
  unfold Lists at hlists
  generalize cacheAfter hrn events = s at hlists ⊢
  unfold getOrThrow
  cases hvalue : s.valueAt (partitionsKey hrn r.layerId r.version) with
  | none => simp
  | some value =>
    cases value with
    | partitionIds ids =>
      have hlisted := hlists ids hvalue
      have hwhole := getByIdsOrThrow_whole_iff hrn r ids s
      rw [hlisted]
      constructor
      · rintro (hnone | ⟨ps, hps, hids⟩)
        · cases hread : getByIdsOrThrow hrn r ids s with
          | error fault => 
            dsimp only at hnone
            rw [hread] at hnone
            cases hnone
          | ok ps => 
            dsimp only at hnone
            rw [hread] at hnone
            cases hnone
        · refine Or.inr ⟨ids, rfl, hwhole.mp ?_⟩
          cases hread : getByIdsOrThrow hrn r ids s with
          | error fault => 
            dsimp only at hps
            rw [hread] at hps
            cases hps
          | ok ps' => 
            dsimp only at hps
            rw [hread] at hps
            cases hps
            exact ⟨ps, rfl, (Option.some.inj hids).symm⟩
      · rintro (hnone | ⟨ids', hids', hown⟩)
        · cases hnone
        · cases hids'
          obtain ⟨ps, hps, hids⟩ := hwhole.mpr hown
          refine Or.inr ⟨ps, ?_, by rw [hids]⟩
          dsimp only
          rw [hps]
          rfl
    | url | catalog | version | partition | layerVersions | data =>
      constructor
      · rintro (hnone | ⟨ps, hps, -⟩)
        · cases hnone
        · cases hps
      · rintro (hnone | ⟨ids, hids, -⟩)
        · cases hnone
        · cases hids

/-- Two partitions are listed, the cache drops the entry of the second, and the layer is read as
the first alone. -/
theorem getOrThrow_shorter :
    let r : PartitionsRequest := ⟨"layer".toList, some 1, none, .onlineIfNotFound⟩
    let first : Partition := ⟨"269".toList, "a".toList, []⟩
    let second : Partition := ⟨"270".toList, "b".toList, []⟩
    let events : List CacheEvent := [.call (.putPartitions r [first, second] none true),
      .drop fun key => key == partitionKey "hrn".toList r.layerId second.partition r.version]
    lastListed r events = some [first.partition, second.partition] ∧
      getOrThrow "hrn".toList r (cacheAfter "hrn".toList events) = .ok (some [first]) ∧
      ¬(getOrThrow "hrn".toList r (cacheAfter "hrn".toList events) = .ok none ∨
        ∃ ps, getOrThrow "hrn".toList r (cacheAfter "hrn".toList events) = .ok (some ps) ∧
          lastListed r events = some (ps.map Partition.partition)) := by
  intro r first second events
  have hlisted : lastListed r events = some [first.partition, second.partition] := rfl
  have hread : getOrThrow "hrn".toList r (cacheAfter "hrn".toList events) =
      .ok (some [first]) := by
    decide
  refine ⟨hlisted, hread, ?_⟩
  rw [hlisted, hread]
  rintro (hnone | ⟨ps, hps, hids⟩)
  · cases hnone
  · cases hps
    exact absurd hids (by decide)

end OlpEdgeSdk.Analysis.LayerListings

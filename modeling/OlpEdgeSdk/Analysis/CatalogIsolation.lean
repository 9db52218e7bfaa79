import OlpEdgeSdk.Analysis.CacheKeys
import OlpEdgeSdk.Model.HRN

/-!
# Catalogs in one cache

The repositories of every catalog share one cache and keep apart by the names their keys begin
with. `isolated_iff` says for any two names when the repositories of the first cannot change
what those of the second read: iff neither the first name nor the second one with a separator
behind it is a prefix of the other.

Two things break it. The name that is used is empty unless the service is `data`, so all
catalogs that are given by their URL share their keys (`urls_share_catalog`). And `Clear`
removes by the bare name, so clearing one catalog clears those whose id begins with its id
(`clear_reaches_longer_id`). For names that were read from a text there is nothing else
(`apart_parse_iff`).
-/

set_option autoImplicit false

namespace OlpEdgeSdk.Analysis.CatalogIsolation

open OlpEdgeSdk.Base OlpEdgeSdk.Model OlpEdgeSdk.Model.CacheRepositories
open OlpEdgeSdk.Analysis.CacheKeys

/-! ## What the repositories of a name touch -/

/-- Every key that does not begin with a text holds what it held. -/
def KeepsOthers (start : List Char) (s s' : Store) : Prop :=
  ∀ key, ¬ start <+: key → s'.valueAt key = s.valueAt key

namespace KeepsOthers

variable {start : List Char} {s s' s'' : Store}

theorem refl (s : Store) : KeepsOthers start s s := fun _ _ => rfl

theorem trans (h : KeepsOthers start s s') (h' : KeepsOthers start s' s'') :
    KeepsOthers start s s'' :=
  fun key hkey => (h' key hkey).trans (h key hkey)

theorem insert {key : List Char} (h : start <+: key) (entry : CacheEntry) (s : Store) :
    KeepsOthers start s (s.insert key entry) := by
  intro other hother
  rw [valueAt_insert, if_neg]
  rintro rfl
  exact hother h

theorem removeKeysWithPrefix {keyPrefix : List Char} (h : start <+: keyPrefix) (s : Store) :
    KeepsOthers start s (s.removeKeysWithPrefix keyPrefix) := by
  intro key hkey
  rw [valueAt_removeKeysWithPrefix, if_neg]
  intro hpre
  exact hkey (h.trans (List.isPrefixOf_iff_prefix.mp hpre))

theorem foldl {α : Type} {f : Store → α → Store} (h : ∀ s x, KeepsOthers start s (f s x))
    (l : List α) (s : Store) : KeepsOthers start s (l.foldl f s) := by
  induction l generalizing s with
  | nil => exact refl s
  | cons x l ih => exact (h s x).trans (ih (f s x))

end KeepsOthers

/-- **Step.** An operation changes only keys that begin with the name it is made for. -/
theorem keepsOthers_apply (hrn : List Char) (operation : Operation) (s : Store) :
    KeepsOthers hrn s (operation.apply hrn s) := by
  have hpre : ∀ rest, hrn <+: hrn ++ rest := List.prefix_append hrn
  cases operation with
  | putUrl service version url =>
    refine KeepsOthers.insert ?_ _ s
    simp [ApiCacheRepository.createKey]
  | putCatalog catalog => exact KeepsOthers.insert (hpre _) _ s
  | putVersion version => exact KeepsOthers.insert (hpre _) _ s
  | clearCatalog => exact KeepsOthers.removeKeysWithPrefix List.prefix_rfl s
  | putPartitions r partitions expiry allLayer =>
    have hpartitions : KeepsOthers hrn s (partitions.foldl (fun s p =>
        s.insert (PartitionsCacheRepository.partitionKey hrn r.layerId p.partition r.version)
          ⟨.partition p, expiry⟩) s) := by
      refine KeepsOthers.foldl (fun s p => KeepsOthers.insert ?_ _ s) partitions s
      simp [PartitionsCacheRepository.partitionKey]
    unfold Operation.apply PartitionsCacheRepository.put
    dsimp only
    split
    · refine hpartitions.trans (KeepsOthers.insert ?_ _ _)
      simp [PartitionsCacheRepository.partitionsKey]
    · exact hpartitions
  | putLayerVersions catalogVersion layerVersions =>
    refine KeepsOthers.insert ?_ _ s
    simp [PartitionsCacheRepository.layerVersionsKey]
  | clearLayer layerId =>
    refine KeepsOthers.removeKeysWithPrefix ?_ s
    simp [PartitionsCacheRepository.partitionsKey]
  | clearPartitions r partitionIds =>
    refine KeepsOthers.foldl (fun s p => ?_) _ s
    refine (KeepsOthers.removeKeysWithPrefix ?_ s).trans
      (KeepsOthers.removeKeysWithPrefix ?_ _)
    · simp
    · simp
  | putData data layerId dataHandle =>
    refine KeepsOthers.insert ?_ _ s
    simp [DataCacheRepository.createKey]
  | clearData layerId dataHandle =>
    refine KeepsOthers.removeKeysWithPrefix ?_ s
    simp [DataCacheRepository.createKey]
  | get read => exact KeepsOthers.refl s

/-- **Run.** So does a sequence of operations. -/
theorem keepsOthers_foldl (hrn : List Char) (operations : List Operation) (s : Store) :
    KeepsOthers hrn s (operations.foldl (fun s operation => operation.apply hrn s) s) :=
  KeepsOthers.foldl (fun s operation => keepsOthers_apply hrn operation s) operations s

/-- **What a read looks at.** It depends only on keys that begin with the name and a
separator. -/
theorem answer_congr {hrn : List Char} {s s' : Store}
    (h : ∀ key, hrn ++ separator <+: key → s'.valueAt key = s.valueAt key) (read : Read) :
    read.answer hrn s' = read.answer hrn s := by
  have hkey : ∀ {key : List Char}, hrn ++ separator <+: key →
      s'.valueAt key = s.valueAt key := fun hpre => h _ hpre
  have hpartition : ∀ (r : PartitionsRequest) (id : List Char),
      s'.valueAt (PartitionsCacheRepository.partitionKey hrn r.layerId id r.version) =
        s.valueAt (PartitionsCacheRepository.partitionKey hrn r.layerId id r.version) := by
    intro r id
    apply hkey
    simp [PartitionsCacheRepository.partitionKey]
  have hbyIds : ∀ r ids, PartitionsCacheRepository.getByIds hrn r ids s' =
      PartitionsCacheRepository.getByIds hrn r ids s := by
    intro r ids
    unfold PartitionsCacheRepository.getByIds
    simp only [hpartition]
  cases read with
  | url service version =>
    simp only [Read.answer, ApiCacheRepository.get]
    rw [hkey (by simp [ApiCacheRepository.createKey])]
  | catalog =>
    simp only [Read.answer, CatalogCacheRepository.get]
    rw [hkey (by simp [CatalogCacheRepository.createKey, separator])]
  | version =>
    simp only [Read.answer, CatalogCacheRepository.getVersion]
    rw [hkey (by simp [CatalogCacheRepository.versionKey, separator])]
  | partitionsByIds r ids => simp only [Read.answer, hbyIds]
  | partitions r =>
    simp only [Read.answer, PartitionsCacheRepository.get, hbyIds]
    rw [hkey (by simp [PartitionsCacheRepository.partitionsKey])]
  | layerVersions catalogVersion =>
    simp only [Read.answer, PartitionsCacheRepository.getLayerVersions]
    rw [hkey (by simp [PartitionsCacheRepository.layerVersionsKey])]
  | data layerId dataHandle =>
    simp only [Read.answer, DataCacheRepository.get]
    rw [hkey (by simp [DataCacheRepository.createKey])]

/-! ## Two catalogs -/

/-- No sequence of operations of the repositories of the first changes what a read of the
repositories of the second returns, whatever the cache holds. -/
def Isolated (h₁ h₂ : HRN) : Prop :=
  ∀ (s : Store) (operations : List Operation) (read : Read),
    read.answer h₂.toCatalogHRNString (operations.foldl
      (fun s operation => operation.apply h₁.toCatalogHRNString s) s) =
    read.answer h₂.toCatalogHRNString s

/-- The first name and the second one with a separator behind it: neither is a prefix of the
other. -/
def Apart (h₁ h₂ : HRN) : Prop :=
  ¬ h₁.toCatalogHRNString <+: h₂.toCatalogHRNString ++ separator ∧
    ¬ h₂.toCatalogHRNString ++ separator <+: h₁.toCatalogHRNString

theorem isolated_of_apart {h₁ h₂ : HRN} (h : Apart h₁ h₂) : Isolated h₁ h₂ := by
  intro s operations read
  refine answer_congr (fun key hkey => ?_) read
  apply keepsOthers_foldl
  intro hpre
  rcases List.prefix_or_prefix_of_prefix hpre hkey with hle | hle
  · exact h.1 hle
  · exact h.2 hle

/-- A key of the second catalog that begins with the first name: what lies there is cleared. -/
theorem not_isolated_of_data {h₁ h₂ : HRN} (layerId : List Char)
    (h : h₁.toCatalogHRNString <+:
      DataCacheRepository.createKey h₂.toCatalogHRNString layerId []) : ¬ Isolated h₁ h₂ := by
  intro hisolated
  let key := DataCacheRepository.createKey h₂.toCatalogHRNString layerId []
  have hanswer := hisolated (DataCacheRepository.put h₂.toCatalogHRNString [] layerId []
    SortedMap.empty) [.clearCatalog] (.data layerId [])
  have hput : Store.valueAt (DataCacheRepository.put h₂.toCatalogHRNString [] layerId []
      SortedMap.empty) key = some (.data []) := valueAt_insert_self _ _ _
  have hcleared : Store.valueAt (CatalogCacheRepository.clear h₁.toCatalogHRNString
      (DataCacheRepository.put h₂.toCatalogHRNString [] layerId [] SortedMap.empty)) key =
      none := by
    unfold CatalogCacheRepository.clear
    rw [valueAt_removeKeysWithPrefix, if_pos (List.isPrefixOf_iff_prefix.mpr h)]
  simp only [Read.answer, List.foldl_cons, List.foldl_nil, Operation.apply,
    DataCacheRepository.get, hput, hcleared, key] at hanswer
  cases hanswer

/-- **When catalogs are isolated.** For any two names: whatever the cache holds and whatever is
done with the repositories of the first, those of the second read the same, iff the names are
apart.
SOURCE: CatalogCacheRepository.cpp:39-102, PartitionsCacheRepository.cpp:39-175,
DataCacheRepository.cpp:28-71, ApiCacheRepository.cpp:28-64, HRN.cpp:53-58 -/
theorem isolated_iff (h₁ h₂ : HRN) : Isolated h₁ h₂ ↔ Apart h₁ h₂ := by
  refine ⟨fun hisolated => ⟨fun hpre => ?_, fun hpre => ?_⟩, isolated_of_apart⟩
  · refine not_isolated_of_data [] (hpre.trans ?_) hisolated
    simp [DataCacheRepository.createKey]
  · -- the first name goes on behind the separator: take what follows for a layer
    obtain ⟨layerId, hlayer⟩ := hpre
    refine not_isolated_of_data layerId ?_ hisolated
    rw [← hlayer]
    simp [DataCacheRepository.createKey]

/-- Clearing a catalog reaches one whose id begins with its id, and catalogs that are given by
their URL share all keys. -/
theorem catalogs_not_isolated :
    let h₁ := HRN.parse "hrn:here:data:::a".toList
    let h₂ := HRN.parse "hrn:here:data:::ab".toList
    let u₁ := HRN.parse "http://a".toList
    let u₂ := HRN.parse "http://b".toList
    (h₁.toCatalogHRNString ≠ h₂.toCatalogHRNString ∧ ¬ Isolated h₁ h₂) ∧
      u₁.catalogId ≠ u₂.catalogId ∧ ¬ Isolated u₁ u₂ := by
  refine ⟨⟨by decide, not_isolated_of_data [] (by decide)⟩, by decide, ?_⟩
  exact not_isolated_of_data [] (by decide)

/-! ## Names that were read from a text -/

/-- The separator between the fields of a name. -/
def isColon (c : Char) : Bool := c = ':'

theorem free_decimal (n : ℤ) : Free isColon (decimal n) := by
  intro c hc
  rcases mem_decimal hc with rfl | hdigit
  · rfl
  · unfold isColon
    rw [decide_eq_false_iff_not]
    rintro rfl
    exact absurd hdigit (by decide)

/-- The fields in front of and up to the id of a catalog hold no colon. -/
structure ColonFree (h : HRN) : Prop where
  partition : Free isColon h.partition
  region : Free isColon h.region
  account : Free isColon h.account
  catalogId : Free isColon h.catalogId

theorem free_nil : Free isColon [] := fun _ hx => nomatch hx

theorem free_next (tokens : Tokenizer) : Free isColon (tokens.next ':').1 := by
  cases tokens with
  | none => exact free_nil
  | some text =>
    have htoken : Free isColon (text.takeWhile (· ≠ ':')) := by
      intro x hx
      have hne := List.mem_takeWhile_imp hx
      simpa [isColon] using hne
    unfold Tokenizer.next
    dsimp only
    split
    · exact htoken
    · exact htoken

/-- A name with a known service was read up to the account, by tokens without a colon. -/
theorem exists_readRest {input : List Char} (h : (HRN.parse input).service ≠ .unknown) :
    ∃ partition region account service tokens, HRN.parse input =
        HRN.readRest { HRN.empty with
          partition := partition, service := service, region := region,
          account := account } tokens ∧
      Free isColon partition ∧ Free isColon region ∧ Free isColon account := by
  unfold HRN.parse at h ⊢
  dsimp only at h ⊢
  split at h
  · exact absurd rfl h
  · rename_i hurl
    rw [if_neg hurl]
    split at h
    · rename_i hprotocol
      rw [if_pos hprotocol]
      exact ⟨_, _, _, _, _, rfl, free_next _, free_next _, free_next _⟩
    · exact absurd rfl h

theorem colonFree_parse {input : List Char} (h : (HRN.parse input).service = .data) :
    ColonFree (HRN.parse input) := by
  have hknown : (HRN.parse input).service ≠ .unknown := by simp [h]
  obtain ⟨partition, region, account, service, tokens, hparse, hpartition, hregion, haccount⟩ :=
    exists_readRest hknown
  rw [hparse] at h ⊢
  cases service with
  | data => exact ⟨hpartition, hregion, haccount, free_next _⟩
  | schema => cases h
  | pipeline => cases h
  | unknown => cases h

/-- The name of a data catalog determines its fields up to what follows the id. -/
theorem catalogHRN_append_inj {h₁ h₂ : HRN} (hs₁ : h₁.service = .data) (hs₂ : h₂.service = .data)
    (hfree₁ : ColonFree h₁) (hfree₂ : ColonFree h₂) {rest₁ rest₂ : List Char}
    (h : h₁.toCatalogHRNString ++ rest₁ = h₂.toCatalogHRNString ++ rest₂) :
    h₁.partition = h₂.partition ∧ h₁.region = h₂.region ∧ h₁.account = h₂.account ∧
      h₁.catalogId ++ rest₁ = h₂.catalogId ++ rest₂ := by
  have hdata : ∀ rest, Stops isColon (":data:".toList ++ rest) := by
    intro rest
    simp [Stops, isColon]
  have hcolon : ∀ rest, Stops isColon (":".toList ++ rest) := by
    intro rest
    simp [Stops, isColon]
  simp only [HRN.toCatalogHRNString, hs₁, hs₂, ne_eq, not_true_eq_false, if_false,
    List.append_assoc] at h
  obtain ⟨hpartition, h⟩ := append_inj_of_free hfree₁.partition hfree₂.partition
    (hdata _) (hdata _) (List.append_cancel_left h)
  obtain ⟨hregion, h⟩ := append_inj_of_free hfree₁.region hfree₂.region
    (hcolon _) (hcolon _) (List.append_cancel_left h)
  obtain ⟨haccount, h⟩ := append_inj_of_free hfree₁.account hfree₂.account
    (hcolon _) (hcolon _) (List.append_cancel_left h)
  exact ⟨hpartition, hregion, haccount, List.append_cancel_left h⟩

/-- **For names that were read from texts** the first has to name a data catalog, and the second
must not name one in the same place whose id begins with the id of the first. -/
theorem apart_parse_iff (input₁ input₂ : List Char) :
    Apart (HRN.parse input₁) (HRN.parse input₂) ↔
      (HRN.parse input₁).service = .data ∧
        ¬ ((HRN.parse input₂).service = .data ∧
          (HRN.parse input₁).partition = (HRN.parse input₂).partition ∧
          (HRN.parse input₁).region = (HRN.parse input₂).region ∧
          (HRN.parse input₁).account = (HRN.parse input₂).account ∧
          (HRN.parse input₁).catalogId <+: (HRN.parse input₂).catalogId) := by
  have hfree₁ := @colonFree_parse input₁
  have hfree₂ := @colonFree_parse input₂
  generalize HRN.parse input₁ = h₁ at hfree₁ ⊢
  generalize HRN.parse input₂ = h₂ at hfree₂ ⊢
  have hempty : ∀ {h : HRN}, h.service ≠ .data → h.toCatalogHRNString = [] := by
    intro h hservice
    simp [HRN.toCatalogHRNString, hservice]
  by_cases hs₁ : h₁.service = .data
  · have hhead : ∃ rest, h₁.toCatalogHRNString = 'h' :: rest := by
      simp [HRN.toCatalogHRNString, hs₁]
    simp only [hs₁, true_and]
    by_cases hs₂ : h₂.service = .data
    · simp only [hs₂, true_and]
      constructor
      · rintro ⟨hapart, -⟩ ⟨hpartition, hregion, haccount, rest, hid⟩
        apply hapart
        refine ⟨rest ++ separator, ?_⟩
        simp only [HRN.toCatalogHRNString, hs₁, hs₂, hpartition, hregion, haccount, ← hid,
          ne_eq, not_true_eq_false, if_false, List.append_assoc]
      · intro hids
        constructor
        · rintro ⟨rest, hrest⟩
          obtain ⟨hpartition, hregion, haccount, hid⟩ :=
            catalogHRN_append_inj hs₁ hs₂ (hfree₁ hs₁) (hfree₂ hs₂) hrest
          apply hids
          refine ⟨hpartition, hregion, haccount, ?_⟩
          have hstops : Stops isColon separator := by simp [Stops, isColon, separator]
          exact prefix_of_free (hfree₁ hs₁).catalogId hstops ⟨rest, hid⟩
        · rintro ⟨rest, hrest⟩
          rw [List.append_assoc] at hrest
          obtain ⟨-, -, -, hid⟩ := catalogHRN_append_inj hs₂ hs₁ (hfree₂ hs₂) (hfree₁ hs₁)
            (hrest.trans (List.append_nil _).symm)
          have hcolon : ':' ∈ h₁.catalogId := by
            rw [List.append_nil] at hid
            rw [← hid]
            simp [separator]
          exact absurd ((hfree₁ hs₁).catalogId ':' hcolon) (by decide)
    · obtain ⟨rest, hrest⟩ := hhead
      simp [Apart, hs₂, hempty hs₂, hrest, separator]
  · simp [Apart, hs₁, hempty hs₁]

end OlpEdgeSdk.Analysis.CatalogIsolation

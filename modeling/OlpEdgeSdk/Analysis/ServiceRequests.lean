import OlpEdgeSdk.Interface.ServiceRequests

/-!
# What the services are asked

The functions of the services put their paths and queries together from texts as they are, and the
partitions of one request in the value of one parameter. `isCall_of_listed` says what each of them
hands to `CallApi`, `ofRequest_createRequest` what a service sees of the request that is made of
it, and `routed_seen` that the service then finds the function and all it was called with. For the
other direction, what has been read from a target is safe (`safe_of_isRead`).

The results stand at the end: which requests reach a service as what they are, and that what a
repository asks is told by the request that is sent.
-/

set_option autoImplicit false

namespace OlpEdgeSdk.Analysis.ServiceRequests

open OlpEdgeSdk.Base OlpEdgeSdk.Base.Parameters OlpEdgeSdk.Interface OlpEdgeSdk.Model
open OlpEdgeSdk.Model.ServiceApis

/-! ## Parameters -/

theorem insertParam_nil (key value : List Char) : insertParam [] key value = [(key, value)] := rfl

theorem insertParam_cons (p : List Char × List Char) (params : List (List Char × List Char))
    (key value : List Char) :
    insertParam (p :: params) key value =
      if p.1 ≤ key then p :: insertParam params key value else (key, value) :: p :: params := by
  unfold insertParam
  by_cases h : p.1 ≤ key
  · rw [List.takeWhile_cons_of_pos (by simpa using h), List.dropWhile_cons_of_pos (by simpa using h),
      if_pos h]
    rfl
  · rw [List.takeWhile_cons_of_neg (by simpa using h), List.dropWhile_cons_of_neg (by simpa using h),
      if_neg h]
    rfl

/-- Behind everything that is not greater. -/
theorem insertParam_append {key value : List Char} :
    ∀ {params : List (List Char × List Char)}, (∀ p ∈ params, p.1 ≤ key) →
      insertParam params key value = params ++ [(key, value)]
  | [], _ => rfl
  | p :: params, h => by
    rw [insertParam_cons, if_pos (h p List.mem_cons_self),
      insertParam_append fun q hq => h q (List.mem_cons_of_mem p hq)]
    rfl

theorem concatStringArray_eq (strings : List (List Char)) (delimiter : List Char) :
    concatStringArray strings delimiter =
      if strings = [] then none else some (delimiter.intercalate strings) := by
  unfold concatStringArray
  induction strings with
  | nil => rfl
  | cons first strings ih =>
    cases strings with
    | nil => simp
    | cons second strings =>
      rw [List.getLast?_cons_cons, if_neg (List.cons_ne_nil _ _)]
      rw [if_neg (List.cons_ne_nil _ _)] at ih
      cases hlast : (second :: strings).getLast? with
      | none => simp at hlast
      | some last =>
        rw [hlast] at ih
        have hrest := Option.some.inj ih
        dsimp only
        rw [List.intercalate_cons_cons, ← hrest]
        simp

/-- Every list is given with something in it. -/
structure Listed (x : ServiceRequest) : Prop where
  field : ∀ fields ∈ Request.additionalFields x, fields ≠ []
  partition : ∀ layerId version fields tag, x ≠ .getPartitionsbyId layerId [] version fields tag

/-- The parameters as they are handed on: the partitions are in one value. -/
def handedParams (x : ServiceRequest) : List (Parameter Char) :=
  ((Request.additionalFields x).map fun fields =>
    ("additionalFields".toList, [','].intercalate fields)).toList ++
  ((Request.billingTag x).map fun tag => ("billingTag".toList, tag)).toList ++
  (if Request.partitions x = [] then [] else
    [("partition".toList, "&partition=".toList.intercalate (Request.partitions x))]) ++
  Request.numbers x

/-- The headers of a request of its own. -/
def ownHeaders (range checksum traceId : Option (List Char)) : List (List Char × List Char) :=
  [("Accept".toList, "application/json".toList)] ++
    (range.map fun value => ("Range".toList, value)).toList ++
    (checksum.map fun value => ("X-HERE-Checksum".toList, value)).toList ++
    (traceId.map fun value => ("X-HERE-TraceId".toList, value)).toList

/-- What is handed to `CallApi` is made of the request. -/
structure IsCall (x : ServiceRequest) (call : ApiCall) : Prop where
  path : call.path = Resource.path (Request.segments x)
  verb : OlpClient.verbOf call.method =
    if Request.verb x = .HEAD then .GET else Request.verb x
  queryParams : call.queryParams = handedParams x
  headerParams : call.headerParams =
    ownHeaders (Request.range x) (Request.checksum x) (Request.traceId x)
  postBody : call.postBody = Request.content x
  contentType : call.contentType = (Request.contentType x).getD []

theorem insertAdditionalFields_of_ne_nil (params : List (List Char × List Char))
    {fields : List (List Char)} (h : fields ≠ []) :
    insertAdditionalFields params (some fields) =
      some (insertParam params "additionalFields".toList ([','].intercalate fields)) := by
  unfold insertAdditionalFields
  dsimp only
  rw [concatStringArray_eq, if_neg h]
  rfl

/-- The parameters of a request with at most a billing tag. -/
theorem handedParams_of_tag {x : ServiceRequest} (hfields : Request.additionalFields x = none)
    (hpartitions : Request.partitions x = []) (hnumbers : Request.numbers x = []) :
    insertBillingTag [] (Request.billingTag x) = handedParams x := by
  unfold handedParams
  rw [hfields, if_pos hpartitions, hnumbers]
  cases Request.billingTag x <;> rfl

/-! ### Paths -/

section Paths

open Resource

variable (a b c d s t u v : List Char)

theorem path_two : '/' :: (a ++ ['/']) ++ s = path [a, s] := by simp [path]

theorem path_three : '/' :: (a ++ ['/']) ++ s ++ '/' :: b = path [a, s, b] := by simp [path]

theorem path_four : '/' :: (a ++ ['/']) ++ s ++ '/' :: (b ++ ['/']) ++ t = path [a, s, b, t] := by
  simp [path]

theorem path_five : '/' :: (a ++ ['/']) ++ s ++ '/' :: (b ++ ['/']) ++ t ++ '/' :: c =
    path [a, s, b, t, c] := by
  simp [path]

theorem path_eight : '/' :: (a ++ ['/']) ++ s ++ '/' :: (b ++ ['/']) ++ t ++
    '/' :: (c ++ ['/']) ++ u ++ '/' :: (d ++ ['/']) ++ v = path [a, s, b, t, c, u, d, v] := by
  simp [path]

theorem path_platform : '/' :: (a ++ '/' :: (b ++ ['/'])) ++ s ++ ['/'] ++ t =
    path [a, b, s, t] := by
  simp [path]

theorem path_resource : '/' :: (a ++ ['/']) ++ s ++ '/' :: (b ++ ['/']) ++ t ++ ['/'] ++ u =
    path [a, s, b, t, u] := by
  simp [path]

end Paths

/-! ### Calls -/

/-- What is handed on without a body, with no list and at most a billing tag. -/
theorem isCall_of_tag {x : ServiceRequest} {call : ApiCall}
    (hpath : call.path = Resource.path (Request.segments x))
    (hverb : OlpClient.verbOf call.method =
      if Request.verb x = .HEAD then .GET else Request.verb x)
    (hparams : call.queryParams = insertBillingTag [] (Request.billingTag x))
    (hfields : Request.additionalFields x = none) (hpartitions : Request.partitions x = [])
    (hnumbers : Request.numbers x = [])
    (hheaders : call.headerParams =
      ownHeaders (Request.range x) (Request.checksum x) (Request.traceId x))
    (hbody : call.postBody = Request.content x)
    (htype : call.contentType = (Request.contentType x).getD []) : IsCall x call :=
  ⟨hpath, hverb, hparams.trans (handedParams_of_tag hfields hpartitions hnumbers), hheaders, hbody,
    htype⟩

theorem isCall_getPartitions (layerId : List Char) (version : Option ℤ)
    (fields : Option (List (List Char))) (range tag : Option (List Char))
    (h : ∀ list ∈ fields, list ≠ []) :
    ∃ call, MetadataApi.getPartitions layerId version fields range tag = some call ∧
      IsCall (.getPartitions layerId version fields range tag) call := by
  have hpath := path_three "layers".toList "partitions".toList layerId
  cases fields with
  | none =>
    refine ⟨_, rfl, hpath, rfl, ?_, ?_, rfl, rfl⟩
    · cases version <;> cases tag <;> rfl
    · cases range <;> rfl
  | some fields =>
    have hfields := insertAdditionalFields_of_ne_nil [] (h fields rfl)
    unfold MetadataApi.getPartitions
    rw [hfields]
    refine ⟨_, rfl, hpath, rfl, ?_, ?_, rfl, rfl⟩
    · cases version <;> cases tag <;> rfl
    · cases range <;> rfl

theorem isCall_getPartitionsbyId (layerId : List Char) {partition : List (List Char)}
    (version : Option ℤ) (fields : Option (List (List Char))) (tag : Option (List Char))
    (hpartition : partition ≠ []) (h : ∀ list ∈ fields, list ≠ []) :
    ∃ call, QueryApi.getPartitionsbyId layerId partition version fields tag = some call ∧
      IsCall (.getPartitionsbyId layerId partition version fields tag) call := by
  have hpath := path_three "layers".toList "partitions".toList layerId
  have hjoined : concatStringArray partition "&partition=".toList =
      some ("&partition=".toList.intercalate partition) := by
    rw [concatStringArray_eq, if_neg hpartition]
  have hparams : handedParams (.getPartitionsbyId layerId partition version fields tag) =
      (fields.map fun fields => ("additionalFields".toList, [','].intercalate fields)).toList ++
        (tag.map fun tag => ("billingTag".toList, tag)).toList ++
        [("partition".toList, "&partition=".toList.intercalate partition)] ++
        (version.map fun n => ("version".toList, decimal n)).toList := by
    show _ ++ _ ++ (if partition = [] then [] else _) ++ _ = _
    rw [if_neg hpartition]
    rfl
  unfold QueryApi.getPartitionsbyId
  rw [hjoined]
  generalize "&partition=".toList.intercalate partition = ids at hparams ⊢
  cases fields with
  | none =>
    refine ⟨_, rfl, hpath, rfl, ?_, rfl, rfl, rfl⟩
    rw [hparams]
    cases version <;> cases tag <;> rfl
  | some fields =>
    have hfields := insertAdditionalFields_of_ne_nil (insertParam [] "partition".toList ids)
      (h fields rfl)
    dsimp only [Option.bind_eq_bind, Option.bind_some]
    rw [hfields]
    refine ⟨_, rfl, hpath, rfl, ?_, rfl, rfl, rfl⟩
    rw [hparams]
    cases version <;> cases tag <;> rfl

theorem isCall_quadTreeIndex (layerId : List Char) (version : ℤ) (quadKey : List Char) (depth : ℤ)
    (fields : Option (List (List Char))) (tag : Option (List Char))
    (h : ∀ list ∈ fields, list ≠ []) :
    ∃ call, QueryApi.quadTreeIndex layerId version quadKey depth fields tag = some call ∧
      IsCall (.quadTreeIndex layerId version quadKey depth fields tag) call := by
  have hpath := path_eight "layers".toList "versions".toList "quadkeys".toList "depths".toList
    layerId (decimal version) quadKey (decimal depth)
  cases fields with
  | none =>
    refine ⟨_, rfl, hpath, rfl, ?_, rfl, rfl, rfl⟩
    cases tag <;> rfl
  | some fields =>
    have hfields := insertAdditionalFields_of_ne_nil [] (h fields rfl)
    unfold QueryApi.quadTreeIndex
    rw [hfields]
    refine ⟨_, rfl, hpath, rfl, ?_, rfl, rfl, rfl⟩
    cases tag <;> rfl

/-- **Each function hands on what its request says.** -/
theorem isCall_of_listed {x : ServiceRequest} (h : Listed x) :
    ∃ call, x.apiCall = some call ∧ IsCall x call := by
  have hblob := path_four "layers".toList "data".toList
  have hlayer := path_two "layers".toList
  have hpublication := path_two "publications".toList
  cases x with
  | platformApis service version =>
    exact ⟨_, rfl, isCall_of_tag (path_platform "platform".toList "apis".toList service version)
      rfl rfl rfl rfl rfl rfl rfl rfl⟩
  | resourceApis hrn service version =>
    exact ⟨_, rfl, isCall_of_tag
      (path_resource "resources".toList "apis".toList hrn service version)
      rfl rfl rfl rfl rfl rfl rfl rfl⟩
  | getCatalog hrn tag =>
    exact ⟨_, rfl, isCall_of_tag (path_two "catalogs".toList hrn) rfl rfl rfl rfl rfl rfl rfl rfl⟩
  | getLayerVersions version tag =>
    refine ⟨_, rfl, rfl, rfl, ?_, rfl, rfl, rfl⟩
    cases tag <;> rfl
  | getLatestCatalogVersion version tag =>
    refine ⟨_, rfl, rfl, rfl, ?_, rfl, rfl, rfl⟩
    cases tag <;> rfl
  | getPartitions layerId version fields range tag =>
    exact isCall_getPartitions layerId version fields range tag h.field
  | getPartitionsbyId layerId partition version fields tag =>
    have hpartition : partition ≠ [] := by
      rintro rfl
      exact h.partition _ _ _ _ rfl
    exact isCall_getPartitionsbyId layerId version fields tag hpartition h.field
  | quadTreeIndex layerId version quadKey depth fields tag =>
    exact isCall_quadTreeIndex layerId version quadKey depth fields tag h.field
  | getBlob layerId dataHandle tag range =>
    refine ⟨_, rfl, isCall_of_tag (hblob layerId dataHandle) rfl rfl rfl rfl rfl ?_ rfl rfl⟩
    cases range <;> rfl
  | getVolatileBlob layerId dataHandle tag | deleteBlob layerId dataHandle tag
  | checkBlobExists layerId dataHandle tag =>
    exact ⟨_, rfl, isCall_of_tag (hblob layerId dataHandle) rfl rfl rfl rfl rfl rfl rfl rfl⟩
  | putBlob layerId contentType dataHandle data tag =>
    refine ⟨_, rfl, isCall_of_tag (hblob layerId dataHandle) rfl rfl rfl rfl rfl rfl rfl ?_⟩
    cases contentType <;> rfl
  | ingestData layerId contentType data traceId tag checksum =>
    refine ⟨_, rfl, isCall_of_tag (hlayer layerId) rfl rfl rfl rfl rfl ?_ rfl ?_⟩
    · cases traceId <;> cases checksum <;> rfl
    · cases contentType <;> rfl
  | ingestSdii layerId data traceId tag checksum =>
    refine ⟨_, rfl, isCall_of_tag (path_three "layers".toList "sdiiMessageList".toList layerId)
      rfl rfl rfl rfl rfl ?_ rfl rfl⟩
    cases traceId <;> cases checksum <;> rfl
  | initPublication publication tag =>
    exact ⟨_, rfl, isCall_of_tag rfl rfl rfl rfl rfl rfl rfl rfl rfl⟩
  | uploadPartitions partitions publicationId layerId tag =>
    exact ⟨_, rfl, isCall_of_tag (path_five "layers".toList "publications".toList
      "partitions".toList layerId publicationId) rfl rfl rfl rfl rfl rfl rfl rfl⟩
  | submitPublication publicationId tag | getPublication publicationId tag
  | cancelPublication publicationId tag =>
    exact ⟨_, rfl, isCall_of_tag (hpublication publicationId) rfl rfl rfl rfl rfl rfl rfl rfl⟩
  | insertIndexes document layerId tag | performUpdate document layerId tag =>
    exact ⟨_, rfl, isCall_of_tag (hlayer layerId) rfl rfl rfl rfl rfl rfl rfl rfl⟩

/-! ## The target -/

theorem intercalate_append {sep : List Char} {l l' : List (List Char)} (h : l ≠ [])
    (h' : l' ≠ []) : sep.intercalate (l ++ l') = sep.intercalate l ++ sep ++ sep.intercalate l' := by
  induction l with
  | nil => exact absurd rfl h
  | cons first l ih =>
    cases l with
    | nil =>
      obtain ⟨second, rest, rfl⟩ := List.exists_cons_of_ne_nil h'
      rw [List.singleton_append, List.intercalate_cons_cons, List.intercalate_singleton]
    | cons second l =>
      have hrest := ih (List.cons_ne_nil _ _)
      rw [List.cons_append, List.cons_append] at *
      rw [List.intercalate_cons_cons, hrest, List.intercalate_cons_cons]
      simp only [List.append_assoc]

/-- Texts that are joined may be joined before. -/
theorem intercalate_joined {sep : List Char} {l m n : List (List Char)} (hm : m ≠ []) :
    sep.intercalate (l ++ [sep.intercalate m] ++ n) = sep.intercalate (l ++ m ++ n) := by
  have hmiddle : sep.intercalate ([sep.intercalate m] ++ n) = sep.intercalate (m ++ n) := by
    by_cases hn : n = []
    · rw [hn, List.append_nil, List.append_nil, List.intercalate_singleton]
    · rw [intercalate_append (List.cons_ne_nil _ _) hn, intercalate_append hm hn,
        List.intercalate_singleton]
  have hne : m ++ n ≠ [] := List.append_ne_nil_of_left_ne_nil hm n
  have hne' : [sep.intercalate m] ++ n ≠ [] := List.cons_ne_nil _ _
  rw [List.append_assoc, List.append_assoc]
  by_cases hl : l = []
  · rw [hl, List.nil_append, List.nil_append, hmiddle]
  · rw [intercalate_append hl hne', intercalate_append hl hne, hmiddle]

/-- A name before the first text, and behind the sign before each other. -/
theorem item_intercalate (name : List Char) {texts : List (List Char)} (h : texts ≠ []) :
    item '=' (name, ('&' :: (name ++ ['='])).intercalate texts) =
      ['&'].intercalate (texts.map fun text => item '=' (name, text)) := by
  induction texts with
  | nil => exact absurd rfl h
  | cons first texts ih =>
    cases texts with
    | nil => simp
    | cons second texts =>
      have hrest := ih (List.cons_ne_nil _ _)
      rw [List.map_cons, List.map_cons, List.intercalate_cons_cons, List.intercalate_cons_cons,
        ← List.map_cons (f := fun text => item '=' (name, text)), ← hrest]
      simp [item]

theorem queryString_eq (params : List (Parameter Char)) :
    OlpClient.queryString params = Resource.query params := by
  unfold OlpClient.queryString Resource.query joined item
  split
  · rfl
  · simp

/-- **The text of the query** is that of the parameters of the request. -/
theorem queryString_handedParams (x : ServiceRequest) :
    OlpClient.queryString (handedParams x) = Resource.query (Request.params x) := by
  rw [queryString_eq]
  unfold handedParams Request.params
  by_cases hpartitions : Request.partitions x = []
  · rw [if_pos hpartitions, hpartitions]
    rfl
  · rw [if_neg hpartitions]
    have hname : "&partition=".toList = '&' :: ("partition".toList ++ ['=']) := rfl
    unfold Resource.query
    rw [if_neg (by simp), if_neg (by simp [hpartitions])]
    refine congrArg ('?' :: ·) ?_
    unfold joined
    rw [hname]
    generalize "partition".toList = name
    rw [List.map_append, List.map_append, List.map_singleton, item_intercalate name hpartitions,
      intercalate_joined (by simpa using hpartitions)]
    simp only [List.map_append, List.map_map]
    rfl

/-! ## Safe requests -/

theorem listed_of_safe {x : ServiceRequest} (h : Request.Safe x) : Listed x :=
  ⟨fun fields hfields => (h.field fields hfields).1, h.partition⟩

theorem notMem_decimal {c : Char} (hminus : c ≠ '-') (hdigit : c.isDigit = false) (n : ℤ) :
    c ∉ decimal n := by
  intro hmem
  rcases mem_decimal hmem with h | h
  · exact hminus h
  · rw [hdigit] at h
    cases h

theorem number_name {x : ServiceRequest} {p : Parameter Char} (hp : p ∈ Request.numbers x) :
    p.1 = "version".toList ∨ p.1 = "startVersion".toList := by
  cases x with
  | getLayerVersions =>
    obtain rfl := List.mem_singleton.mp hp
    exact .inl rfl
  | getLatestCatalogVersion =>
    obtain rfl := List.mem_singleton.mp hp
    exact .inr rfl
  | getPartitions _ version | getPartitionsbyId _ _ version =>
    obtain ⟨n, -, rfl⟩ := Option.map_eq_some_iff.mp (Option.mem_toList.mp hp)
    exact .inl rfl
  | _ => exact absurd hp List.not_mem_nil

/-- The names of the parameters. -/
theorem name_mem_of_mem_params {x : ServiceRequest} {p : Parameter Char}
    (h : p ∈ Request.params x) : p.1 ∈ ["additionalFields".toList, "billingTag".toList,
      "partition".toList, "version".toList, "startVersion".toList] := by
  unfold Request.params at h
  simp only [List.mem_append, Option.mem_toList, Option.map_eq_some_iff, List.mem_map] at h
  rcases h with ((⟨fields, -, rfl⟩ | ⟨tag, -, rfl⟩) | ⟨id, -, rfl⟩) | h
  · simp
  · simp
  · simp
  · rcases number_name h with hname | hname
    · rw [hname]
      simp
    · rw [hname]
      simp

theorem value_free_of_safe {x : ServiceRequest} (h : Request.Safe x) {p : Parameter Char}
    (hp : p ∈ Request.params x) : '&' ∉ p.2 ∧ '#' ∉ p.2 := by
  have hvalue := h.value
  simp only [List.mem_append, Option.mem_toList] at hvalue
  have hnumbers : p ∈ Request.numbers x → ∃ n, p.2 = decimal n := by
    intro hp
    cases x with
    | getLayerVersions | getLatestCatalogVersion =>
      obtain rfl := List.mem_singleton.mp hp
      exact ⟨_, rfl⟩
    | getPartitions _ version | getPartitionsbyId _ _ version =>
      obtain ⟨n, -, rfl⟩ := Option.map_eq_some_iff.mp (Option.mem_toList.mp hp)
      exact ⟨n, rfl⟩
    | _ => exact absurd hp List.not_mem_nil
  unfold Request.params at hp
  simp only [List.mem_append, Option.mem_toList, Option.map_eq_some_iff, List.mem_map] at hp
  rcases hp with ((⟨fields, hfields, rfl⟩ | ⟨tag, htag, rfl⟩) | ⟨id, hid, rfl⟩) | hp
  · have hfree : ∀ text ∈ fields, '&' ∉ text ∧ '#' ∉ text :=
      fun text htext => hvalue text (.inr (by rw [hfields]; exact htext))
    constructor
    · intro hmem
      rcases mem_of_mem_intercalate hmem with hmem | ⟨text, htext, hmem⟩
      · exact absurd hmem (by decide)
      · exact (hfree text htext).1 hmem
    · intro hmem
      rcases mem_of_mem_intercalate hmem with hmem | ⟨text, htext, hmem⟩
      · exact absurd hmem (by decide)
      · exact (hfree text htext).2 hmem
  · exact hvalue tag (.inl (.inl htag))
  · exact hvalue id (.inl (.inr hid))
  · obtain ⟨n, hn⟩ := hnumbers hp
    rw [hn]
    exact ⟨notMem_decimal (by decide) (by decide) n, notMem_decimal (by decide) (by decide) n⟩

theorem safe_resource {x : ServiceRequest} (h : Request.Safe x) :
    (Request.seen x).resource.Safe := by
  have hname : ∀ name ∈ ["additionalFields".toList, "billingTag".toList, "partition".toList,
      "version".toList, "startVersion".toList], '&' ∉ name ∧ '=' ∉ name ∧ '#' ∉ name := by
    decide
  exact ⟨h.segment, fun p hp => hname p.1 (name_mem_of_mem_params hp),
    fun p hp => value_free_of_safe h hp⟩

/-! ## Headers -/

section Headers

variable {name : List Char}

theorem header_append (l l' : List (List Char × List Char)) :
    header name (l ++ l') = (header name l').or (header name l) := by
  unfold header
  rw [List.reverse_append, List.find?_append, Option.map_or]

theorem header_eq_none {l : List (List Char × List Char)} (h : ∀ p ∈ l, p.1 ≠ name) :
    header name l = none := by
  unfold header
  rw [Option.map_eq_none_iff, List.find?_eq_none]
  intro p hp
  simpa using h p (List.mem_reverse.mp hp)

/-- The headers that a service reads. -/
def readNames : List (List Char) :=
  ["Range".toList, "X-HERE-TraceId".toList, "X-HERE-Checksum".toList, "Content-Type".toList]

/-- Of the headers that a service reads, only those of the request itself are seen. -/
theorem header_headers {c : OlpClient} (hname : name ∈ readNames)
    (hdefault : ∀ p ∈ c.defaultHeaders, p.1 ∉ readNames) (sdkUserAgent : List Char)
    (range checksum traceId : Option (List Char)) (contentType : List Char) :
    header name (c.headers sdkUserAgent (ownHeaders range checksum traceId) contentType) =
      (header name (if contentType = [] then [] else [("Content-Type".toList, contentType)])).or
        (header name (ownHeaders range checksum traceId)) := by
  have hagent : name ≠ "User-Agent".toList ∧ name ≠ "Authorization".toList := by
    revert name
    decide
  have hfilter : ((ownHeaders range checksum traceId).filter fun p =>
      !OlpClient.caseInsensitiveCompare p.1 "User-Agent".toList) =
      ownHeaders range checksum traceId := by
    cases range <;> cases checksum <;> cases traceId <;> rfl
  have hauth : header name
      (c.bearer.map fun token => ("Authorization".toList, "Bearer ".toList ++ token)).toList =
        none := by
    refine header_eq_none fun p hp => ?_
    obtain ⟨token, -, rfl⟩ := Option.map_eq_some_iff.mp (Option.mem_toList.mp hp)
    exact hagent.2.symm
  have hclient : header name c.defaultHeaders = none :=
    header_eq_none fun p hp heq => hdefault p hp (heq ▸ hname)
  have huser : ∀ value, header name [("User-Agent".toList, value)] = none := by
    intro value
    refine header_eq_none fun p hp => ?_
    rw [List.mem_singleton.mp hp]
    exact hagent.1.symm
  unfold OlpClient.headers
  dsimp only
  rw [hfilter, header_append, header_append, header_append, header_append, hauth, hclient, huser,
    Option.or_none, Option.or_none, Option.none_or]

theorem header_ownHeaders (range checksum traceId : Option (List Char)) :
    header "Range".toList (ownHeaders range checksum traceId) = range ∧
      header "X-HERE-Checksum".toList (ownHeaders range checksum traceId) = checksum ∧
      header "X-HERE-TraceId".toList (ownHeaders range checksum traceId) = traceId ∧
      header "Content-Type".toList (ownHeaders range checksum traceId) = none := by
  cases range <;> cases checksum <;> cases traceId <;> exact ⟨rfl, rfl, rfl, rfl⟩

end Headers

/-! ## What is seen -/

theorem contentType_ne_some_nil (x : ServiceRequest) : Request.contentType x ≠ some [] := by
  cases x with
  | putBlob _ contentType | ingestData _ contentType =>
    intro h
    by_cases hnil : contentType = []
    · cases (if_pos hnil).symm.trans h
    · exact hnil (Option.some.inj ((if_neg hnil).symm.trans h))
  | _ => exact fun h => by cases h

/-- **A service sees the request**, but for the existence check of a blob, which asks for the
blob, and as far as the target can be read. -/
theorem ofRequest_createRequest {c : OlpClient} {x : ServiceRequest} {call : ApiCall}
    (hcall : IsCall x call) (hdefault : ∀ p ∈ c.defaultHeaders, p.1 ∉ readNames)
    (sdkUserAgent : List Char) :
    Seen.ofRequest c.baseUrl (c.createRequest sdkUserAgent call.path call.method call.queryParams
        call.headerParams call.postBody call.contentType) =
      { Request.seen x with
        verb := if Request.verb x = .HEAD then .GET else Request.verb x
        resource := .ofTarget (Request.seen x).resource.target } := by
  have htarget : (c.baseUrl ++ call.path ++ OlpClient.queryString call.queryParams).drop
      c.baseUrl.length = (Request.seen x).resource.target := by
    rw [List.append_assoc, List.drop_left, hcall.path, hcall.queryParams, queryString_handedParams]
    rfl
  have hread := fun {name : List Char} (hname : name ∈ readNames) =>
    header_headers hname hdefault sdkUserAgent (Request.range x) (Request.checksum x)
      (Request.traceId x) call.contentType
  obtain ⟨hrange, hchecksum, htrace, htype⟩ :=
    header_ownHeaders (Request.range x) (Request.checksum x) (Request.traceId x)
  have hother : ∀ name ∈ readNames, name ≠ "Content-Type".toList → header name
      (if call.contentType = [] then [] else [("Content-Type".toList, call.contentType)]) =
        none := by
    intro name _ hne
    refine header_eq_none fun p hp => ?_
    split at hp
    · exact absurd hp List.not_mem_nil
    · rw [List.mem_singleton.mp hp]
      exact hne.symm
  have hcontentType : header "Content-Type".toList
      (if call.contentType = [] then [] else [("Content-Type".toList, call.contentType)]) =
        Request.contentType x := by
    rw [hcall.contentType]
    cases h : Request.contentType x with
    | none => rfl
    | some contentType =>
      have hne : contentType ≠ [] := by
        rintro rfl
        exact contentType_ne_some_nil x h
      show header _ (if contentType = [] then _ else _) = _
      rw [if_neg hne]
      rfl
  unfold Seen.ofRequest OlpClient.createRequest Request.seen
  dsimp only
  rw [htarget, hcall.verb, hcall.headerParams, hcall.postBody, hread (by decide),
    hread (by decide), hread (by decide), hread (by decide), hrange, hchecksum, htrace, htype,
    hcontentType, hother _ (by decide) (by decide), hother _ (by decide) (by decide),
    hother _ (by decide) (by decide), Option.none_or, Option.none_or, Option.none_or,
    Option.or_none]
  rfl

/-! ## Routing -/

theorem filter_named {l : List (Parameter Char)} {n : List Char} (h : ∀ p ∈ l, p.1 = n)
    (name : List Char) : (l.filter fun p => p.1 = name) = if n = name then l else [] := by
  split
  · rename_i heq
    exact List.filter_eq_self.mpr fun p hp => by simpa [h p hp] using heq
  · rename_i hne
    exact List.filter_eq_nil_iff.mpr fun p hp => by simpa [h p hp] using hne

theorem values_seen (x : ServiceRequest) (name : List Char) :
    (Request.seen x).values name =
      (if "additionalFields".toList = name then
        ((Request.additionalFields x).map fun fields => [','].intercalate fields).toList else []) ++
      (if "billingTag".toList = name then (Request.billingTag x).toList else []) ++
      (if "partition".toList = name then Request.partitions x else []) ++
      ((Request.numbers x).filter fun p => p.1 = name).map Prod.snd := by
  unfold Seen.values Request.seen Request.params
  dsimp only
  rw [List.filter_append, List.filter_append, List.filter_append,
    filter_named (n := "additionalFields".toList), filter_named (n := "billingTag".toList),
    filter_named (n := "partition".toList), List.map_append, List.map_append, List.map_append]
  · congr 1
    congr 1
    · congr 1
      · cases Request.additionalFields x <;> split <;> rfl
      · cases Request.billingTag x <;> split <;> rfl
    · split
      · rw [List.map_map]
        exact List.map_id _
      · rfl
  · intro p hp
    obtain ⟨id, -, rfl⟩ := List.mem_map.mp hp
    rfl
  · intro p hp
    obtain ⟨tag, -, rfl⟩ := Option.map_eq_some_iff.mp (Option.mem_toList.mp hp)
    rfl
  · intro p hp
    obtain ⟨fields, -, rfl⟩ := Option.map_eq_some_iff.mp (Option.mem_toList.mp hp)
    rfl

theorem numbers_named (x : ServiceRequest) {name : List Char} (hversion : name ≠ "version".toList)
    (hstart : name ≠ "startVersion".toList) :
    ((Request.numbers x).filter fun p => p.1 = name).map Prod.snd = [] := by
  rw [List.map_eq_nil_iff, List.filter_eq_nil_iff]
  intro p hp
  have hname : p.1 = "version".toList ∨ p.1 = "startVersion".toList := number_name hp
  rcases hname with hname | hname
  · simpa [hname] using hversion.symm
  · simpa [hname] using hstart.symm

theorem billingTag_seen (x : ServiceRequest) :
    (Request.seen x).billingTag = Request.billingTag x := by
  unfold Seen.billingTag Seen.value
  rw [values_seen, if_neg (by decide), if_pos rfl, if_neg (by decide),
    numbers_named x (by decide) (by decide)]
  cases Request.billingTag x <;> rfl

theorem additionalFields_seen {x : ServiceRequest} (h : Request.Safe x) :
    (Request.seen x).additionalFields = Request.additionalFields x := by
  unfold Seen.additionalFields Seen.value
  rw [values_seen, if_pos rfl, if_neg (by decide), if_neg (by decide),
    numbers_named x (by decide) (by decide)]
  cases hfields : Request.additionalFields x with
  | none => rfl
  | some fields =>
    obtain ⟨hne, hcomma⟩ := h.field fields hfields
    exact congrArg some (List.splitOn_intercalate ',' hcomma hne)

theorem partitions_seen (x : ServiceRequest) :
    (Request.seen x).values "partition".toList = Request.partitions x := by
  rw [values_seen, if_neg (by decide), if_neg (by decide), if_pos rfl,
    numbers_named x (by decide) (by decide)]
  simp

/-- The numbers with a name. -/
theorem values_number (x : ServiceRequest) {name : List Char}
    (hname : name ∈ ["version".toList, "startVersion".toList]) :
    (Request.seen x).value name =
      (((Request.numbers x).filter fun p => p.1 = name).map Prod.snd).head? := by
  have hne : "additionalFields".toList ≠ name ∧ "billingTag".toList ≠ name ∧
      "partition".toList ≠ name := by
    revert name
    decide
  unfold Seen.value
  rw [values_seen, if_neg hne.1, if_neg hne.2.1, if_neg hne.2.2]
  rfl

theorem version_seen (x : ServiceRequest) (version : Option ℤ)
    (h : Request.numbers x = (version.map fun n => ("version".toList, decimal n)).toList) :
    (Request.seen x).version = version := by
  unfold Seen.version
  rw [values_number x (by decide), h]
  cases version with
  | none => rfl
  | some n => exact readDecimal_decimal n

theorem getD_contentType (contentType : List Char) :
    (if contentType = [] then none else some contentType).getD [] = contentType := by
  cases contentType <;> rfl

/-- A request is named by its resource and its method. -/
theorem named_seen {x : ServiceRequest} (h : Request.Safe x) :
    (Request.seen x).named (Request.service x) = some x := by
  have htag := billingTag_seen x
  have hfields := additionalFields_seen h
  cases x with
  | platformApis | resourceApis => rfl
  | getCatalog _ tag | deleteBlob _ _ tag | checkBlobExists _ _ tag | getVolatileBlob _ _ tag
  | submitPublication _ tag | getPublication _ tag | cancelPublication _ tag =>
    show some _ = some _
    rw [htag]
    rfl
  | initPublication _ tag | uploadPartitions _ _ _ tag | insertIndexes _ _ tag
  | performUpdate _ _ tag =>
    show some _ = some _
    rw [htag]
    rfl
  | getLayerVersions version tag =>
    have hversion : (Request.seen (.getLayerVersions version tag)).version = some version := by
      unfold Seen.version
      rw [values_number _ (by decide)]
      exact readDecimal_decimal version
    show Option.map _ (Seen.version _) = _
    rw [hversion, htag]
    rfl
  | getLatestCatalogVersion startVersion tag =>
    have hstart : ((Request.seen (.getLatestCatalogVersion startVersion tag)).value
        "startVersion".toList).bind readDecimal = some startVersion := by
      rw [values_number _ (by decide)]
      exact readDecimal_decimal startVersion
    show Option.map _ (Option.bind _ _) = _
    rw [hstart, htag]
    rfl
  | getPartitions layerId version fields range tag =>
    have hversion : (Request.seen (.getPartitions layerId version fields range tag)).version =
        version := version_seen _ version rfl
    show some _ = some _
    rw [hversion, hfields, htag]
    rfl
  | getPartitionsbyId layerId partition version fields tag =>
    have hversion : (Request.seen
        (.getPartitionsbyId layerId partition version fields tag)).version = version :=
      version_seen _ version rfl
    show some _ = some _
    rw [hversion, hfields, htag, partitions_seen]
    rfl
  | quadTreeIndex layerId version quadKey depth fields tag =>
    show (readDecimal (decimal version)).bind _ = _
    rw [readDecimal_decimal, Option.bind_some, readDecimal_decimal, hfields, htag]
    rfl
  | getBlob layerId dataHandle tag range =>
    show some _ = some _
    rw [htag]
    rfl
  | putBlob layerId contentType dataHandle data tag =>
    show some (ServiceRequest.putBlob layerId ((if contentType = [] then none else
      some contentType).getD []) dataHandle data _) = _
    rw [htag, getD_contentType]
    rfl
  | ingestData layerId contentType data traceId tag checksum =>
    show some (ServiceRequest.ingestData layerId ((if contentType = [] then none else
      some contentType).getD []) data traceId _ checksum) = _
    rw [htag, getD_contentType]
    rfl
  | ingestSdii layerId data traceId tag checksum =>
    show some _ = some _
    rw [htag]
    rfl

/-- **A service takes a request for what it is**, where it sees what it should see. -/
theorem routed_seen {x : ServiceRequest} (h : Request.Safe x) :
    (Request.seen x).routed (Request.service x) = some x := by
  unfold Seen.routed
  rw [named_seen h]
  exact Option.filter_some_pos (decide_eq_true ⟨rfl, rfl⟩)

/-- The texts of a request are those of the path, or numbers, and those of the query. -/
structure IsRead (s : Seen) (x : ServiceRequest) : Prop where
  segment : ∀ text ∈ Request.segments x, text ∈ s.resource.segments ∨ ∃ n, text = decimal n
  billingTag : Request.billingTag x = none ∨ Request.billingTag x = s.billingTag
  partition : Request.partitions x = [] ∨ Request.partitions x = s.values "partition".toList
  field : Request.additionalFields x = none ∨ Request.additionalFields x = s.additionalFields

/-- A request with nothing but a billing tag in the query. -/
theorem isRead_of_tag {s : Seen} {x : ServiceRequest}
    (hsegments : s.resource.segments = Request.segments x)
    (htag : Request.billingTag x = none ∨ Request.billingTag x = s.billingTag)
    (hpartition : Request.partitions x = []) (hfield : Request.additionalFields x = none) :
    IsRead s x :=
  ⟨fun _ htext => .inl (hsegments ▸ htext), htag, .inl hpartition, .inl hfield⟩

theorem isRead_of_named {s : Seen} {name : ServiceName} {x : ServiceRequest}
    (h : s.named name = some x) : IsRead s x := by
  cases name with
  | lookup =>
    dsimp only [Seen.named] at h
    split at h
    · rename_i hsegments
      split at h
      · rename_i hliteral
        obtain ⟨rfl, rfl⟩ := hliteral
        cases h
        exact isRead_of_tag hsegments (.inl rfl) rfl rfl
      · cases h
    · rename_i hsegments
      split at h
      · rename_i hliteral
        obtain ⟨rfl, rfl⟩ := hliteral
        cases h
        exact isRead_of_tag hsegments (.inl rfl) rfl rfl
      · cases h
    · cases h
  | config =>
    dsimp only [Seen.named] at h
    split at h
    · rename_i hsegments
      split at h
      · rename_i hliteral
        subst hliteral
        cases h
        exact isRead_of_tag hsegments (.inr rfl) rfl rfl
      · cases h
    · cases h
  | metadata =>
    dsimp only [Seen.named] at h
    split at h
    · rename_i hsegments
      split at h
      · rename_i hliteral
        subst hliteral
        obtain ⟨version, -, rfl⟩ := Option.map_eq_some_iff.mp h
        exact isRead_of_tag hsegments (.inr rfl) rfl rfl
      · cases h
    · rename_i hsegments
      split at h
      · rename_i hliteral
        obtain ⟨rfl, rfl⟩ := hliteral
        obtain ⟨startVersion, -, rfl⟩ := Option.map_eq_some_iff.mp h
        exact isRead_of_tag hsegments (.inr rfl) rfl rfl
      · cases h
    · rename_i hsegments
      split at h
      · rename_i hliteral
        obtain ⟨rfl, rfl⟩ := hliteral
        cases h
        exact ⟨fun _ htext => .inl (hsegments ▸ htext), .inr rfl, .inl rfl, .inr rfl⟩
      · cases h
    · cases h
  | query =>
    dsimp only [Seen.named] at h
    split at h
    · rename_i hsegments
      split at h
      · rename_i hliteral
        obtain ⟨rfl, rfl⟩ := hliteral
        cases h
        exact ⟨fun _ htext => .inl (hsegments ▸ htext), .inr rfl, .inr rfl, .inr rfl⟩
      · cases h
    · rename_i layerId _ _ _ quadKey _ _ hsegments
      split at h
      · rename_i hliteral
        obtain ⟨rfl, rfl, rfl, rfl⟩ := hliteral
        obtain ⟨version, -, h⟩ := Option.bind_eq_some_iff.mp h
        obtain ⟨depth, -, rfl⟩ := Option.map_eq_some_iff.mp h
        refine ⟨?_, .inr rfl, .inl rfl, .inr rfl⟩
        intro text htext
        rw [hsegments]
        simp only [Request.segments, List.mem_cons, List.not_mem_nil, or_false] at htext ⊢
        rcases htext with rfl | rfl | rfl | rfl | rfl | rfl | rfl | rfl
        · exact .inl (.inl rfl)
        · exact .inl (.inr (.inl rfl))
        · exact .inl (.inr (.inr (.inl rfl)))
        · exact .inr ⟨version, rfl⟩
        · exact .inl (.inr (.inr (.inr (.inr (.inl rfl)))))
        · exact .inl (.inr (.inr (.inr (.inr (.inr (.inl rfl))))))
        · exact .inl (.inr (.inr (.inr (.inr (.inr (.inr (.inl rfl)))))))
        · exact .inr ⟨depth, rfl⟩
      · cases h
    · cases h
  | blob =>
    dsimp only [Seen.named] at h
    split at h
    · rename_i hsegments
      split at h
      · rename_i hliteral
        obtain ⟨rfl, rfl⟩ := hliteral
        split at h
        · cases h
          exact isRead_of_tag hsegments (.inr rfl) rfl rfl
        · cases h
          exact isRead_of_tag hsegments (.inr rfl) rfl rfl
        · cases h
          exact isRead_of_tag hsegments (.inr rfl) rfl rfl
        · cases h
          exact isRead_of_tag hsegments (.inr rfl) rfl rfl
        · cases h
      · cases h
    · cases h
  | volatileBlob =>
    dsimp only [Seen.named] at h
    split at h
    · rename_i hsegments
      split at h
      · rename_i hliteral
        obtain ⟨rfl, rfl, -⟩ := hliteral
        cases h
        exact isRead_of_tag hsegments (.inr rfl) rfl rfl
      · cases h
    · cases h
  | publish =>
    dsimp only [Seen.named] at h
    split at h
    · rename_i hsegments
      split at h
      · rename_i hliteral
        subst hliteral
        obtain ⟨publication, -, rfl⟩ := Option.map_eq_some_iff.mp h
        exact isRead_of_tag hsegments (.inr rfl) rfl rfl
      · cases h
    · rename_i hsegments
      split at h
      · rename_i hliteral
        subst hliteral
        split at h
        · cases h
          exact isRead_of_tag hsegments (.inr rfl) rfl rfl
        · cases h
          exact isRead_of_tag hsegments (.inr rfl) rfl rfl
        · cases h
          exact isRead_of_tag hsegments (.inr rfl) rfl rfl
        · cases h
      · cases h
    · rename_i hsegments
      split at h
      · rename_i hliteral
        obtain ⟨rfl, rfl, rfl⟩ := hliteral
        obtain ⟨partitions, -, rfl⟩ := Option.map_eq_some_iff.mp h
        exact isRead_of_tag hsegments (.inr rfl) rfl rfl
      · cases h
    · cases h
  | ingest =>
    dsimp only [Seen.named] at h
    split at h
    · rename_i hsegments
      split at h
      · rename_i hliteral
        subst hliteral
        cases h
        exact isRead_of_tag hsegments (.inr rfl) rfl rfl
      · cases h
    · rename_i hsegments
      split at h
      · rename_i hliteral
        obtain ⟨rfl, rfl⟩ := hliteral
        cases h
        exact isRead_of_tag hsegments (.inr rfl) rfl rfl
      · cases h
    · cases h
  | index =>
    dsimp only [Seen.named] at h
    split at h
    · rename_i hsegments
      split at h
      · rename_i hliteral
        subst hliteral
        split at h
        · obtain ⟨document, -, rfl⟩ := Option.map_eq_some_iff.mp h
          exact isRead_of_tag hsegments (.inr rfl) rfl rfl
        · obtain ⟨document, -, rfl⟩ := Option.map_eq_some_iff.mp h
          exact isRead_of_tag hsegments (.inr rfl) rfl rfl
        · cases h
      · cases h
    · cases h

theorem exists_mem_of_mem_values {s : Seen} {name text : List Char} (h : text ∈ s.values name) :
    ∃ p ∈ s.resource.params, p.2 = text := by
  obtain ⟨p, hp, rfl⟩ := List.mem_map.mp h
  exact ⟨p, (List.mem_filter.mp hp).1, rfl⟩

theorem mem_values_of_value {s : Seen} {name text : List Char} (h : s.value name = some text) :
    text ∈ s.values name := List.mem_of_mem_head? h

/-- **What has been read is safe.** -/
theorem safe_of_isRead {s : Seen} {x : ServiceRequest} (hs : s.resource.Safe) (h : IsRead s x)
    (hlisted : Listed x) : Request.Safe x := by
  have hvalues : ∀ {name text}, text ∈ s.values name → '&' ∉ text ∧ '#' ∉ text := by
    intro name text htext
    obtain ⟨p, hp, rfl⟩ := exists_mem_of_mem_values htext
    exact hs.value p hp
  have hfields : ∀ fields ∈ Request.additionalFields x, ∀ text ∈ fields,
      ',' ∉ text ∧ '&' ∉ text ∧ '#' ∉ text := by
    intro fields hfields text htext
    rcases h.field with hnone | hread
    · rw [hnone] at hfields
      cases hfields
    · rw [hread] at hfields
      obtain ⟨value, hvalue, rfl⟩ := Option.map_eq_some_iff.mp hfields
      obtain ⟨hamp, hnumber⟩ := hvalues (mem_values_of_value hvalue)
      have hsub := subset_of_mem_splitOn htext
      exact ⟨notMem_of_mem_splitOn htext, fun hmem => hamp (hsub hmem),
        fun hmem => hnumber (hsub hmem)⟩
  constructor
  · intro text htext
    rcases h.segment text htext with hmem | ⟨n, rfl⟩
    · exact hs.segment text hmem
    · exact ⟨notMem_decimal (by decide) (by decide) n, notMem_decimal (by decide) (by decide) n,
        notMem_decimal (by decide) (by decide) n⟩
  · intro text htext
    rw [List.mem_append, List.mem_append] at htext
    rcases htext with (htext | htext) | htext
    · rcases h.billingTag with hnone | hread
      · rw [hnone] at htext
        exact absurd htext List.not_mem_nil
      · rw [hread] at htext
        exact hvalues (mem_values_of_value (Option.mem_toList.mp htext))
    · rcases h.partition with hnil | hread
      · rw [hnil] at htext
        exact absurd htext List.not_mem_nil
      · rw [hread] at htext
        exact hvalues htext
    · cases hadditional : Request.additionalFields x with
      | none =>
        rw [hadditional] at htext
        exact absurd htext List.not_mem_nil
      | some fields =>
        rw [hadditional] at htext
        exact (hfields fields hadditional text htext).2
  · intro fields hadditional
    exact ⟨hlisted.field fields hadditional,
      fun text htext => (hfields fields hadditional text htext).1⟩
  · exact hlisted.partition

theorem listed_of_apiCall {x : ServiceRequest} {call : ApiCall} (h : x.apiCall = some call) :
    Listed x := by
  constructor
  · rintro fields hfields rfl
    cases x with
    | getPartitions _ _ additionalFields | quadTreeIndex _ _ _ _ additionalFields =>
      obtain rfl : additionalFields = some [] := hfields
      cases h
    | getPartitionsbyId _ partition _ additionalFields =>
      obtain rfl : additionalFields = some [] := hfields
      obtain ⟨ids, -, h⟩ := Option.bind_eq_some_iff.mp h
      cases h
    | _ => cases hfields
  · rintro layerId version fields tag rfl
    cases h

/-! ## Results -/

section Results

variable {c : OlpClient}

theorem exists_httpRequest {x : ServiceRequest}
    (hdefault : ∀ p ∈ c.defaultHeaders, p.1 ∉ readNames) (sdkUserAgent : List Char)
    (hsafe : Request.Safe x) (hhead : Request.verb x ≠ .HEAD) :
    ∃ request, x.httpRequest c sdkUserAgent = some request ∧
      (Seen.ofRequest c.baseUrl request).routed (Request.service x) = some x := by
  obtain ⟨call, hcall, hiscall⟩ := isCall_of_listed (listed_of_safe hsafe)
  refine ⟨_, congrArg (Option.map _) hcall, ?_⟩
  rw [ofRequest_createRequest hiscall hdefault, Resource.ofTarget_target (safe_resource hsafe),
    if_neg hhead]
  exact routed_seen hsafe

/-- A function of the query service for the example. -/
def partitionsRequest : ServiceRequest :=
  .getPartitionsbyId ['l'] [['a'], ['b']] (some 3) none (some ['t'])

def someClient : OlpClient where
  baseUrl := "https://query/v1".toList
  defaultHeaders := []
  retrySettings := ⟨3, 60, 200, id, fun _ => false⟩
  proxySettings := none
  bearer := some ['b']

/-- A repository calls one function for one thing. -/
theorem serviceRequest_inj {lookupUrl catalogHrn : List Char} {call call' : NetworkCall}
    (hurl : baseUrl lookupUrl call = baseUrl lookupUrl call')
    (h : serviceRequest catalogHrn call = serviceRequest catalogHrn call') : call = call' := by
  have hlookup : ∀ service serviceVersion,
      serviceRequest catalogHrn (.lookupApiClient service serviceVersion) =
        if service = "config".toList then .platformApis service serviceVersion
        else .resourceApis catalogHrn service serviceVersion := fun _ _ => rfl
  cases call with
  | lookupApiClient service serviceVersion =>
    rw [hlookup] at h
    cases call' with
    | lookupApiClient service' serviceVersion' =>
      rw [hlookup] at h
      split at h <;> split at h <;> cases h <;> rfl
    | getBlob service' => cases service' <;> split at h <;> cases h
    | _ => split at h <;> cases h
  | getBlob service =>
    obtain rfl := hurl
    cases call' with
    | lookupApiClient =>
      rw [hlookup] at h
      cases service <;> split at h <;> cases h
    | getBlob service' =>
      cases service <;> cases service' <;> cases h <;> rfl
    | _ => cases service <;> cases h
  | _ =>
    obtain rfl := hurl
    cases call' with
    | lookupApiClient =>
      rw [hlookup] at h
      split at h <;> cases h
    | getBlob service' => cases service' <;> cases h
    | _ => cases h <;> rfl

/-- No repository checks whether a blob exists. -/
theorem verb_serviceRequest_ne_head (catalogHrn : List Char) (call : NetworkCall) :
    Request.verb (serviceRequest catalogHrn call) ≠ .HEAD := by
  cases call with
  | lookupApiClient service =>
    show Request.verb (if service = "config".toList then _ else _) ≠ _
    split <;> exact fun h => by cases h
  | getBlob service => cases service <;> exact fun h => by cases h
  | _ => exact fun h => by cases h

/-- **What is sent tells what was asked for.** Two calls to one service at one URL, with texts that
can be told from a target, are sent as the same request if and only if they are the same call. -/
theorem sent_eq_sent_iff (hdefault : ∀ p ∈ c.defaultHeaders, p.1 ∉ readNames)
    (sdkUserAgent lookupUrl catalogHrn : List Char) (call call' : NetworkCall)
    (hsafe : Request.Safe (serviceRequest catalogHrn call))
    (hsafe' : Request.Safe (serviceRequest catalogHrn call'))
    (hurl : baseUrl lookupUrl call = baseUrl lookupUrl call')
    (hservice : Request.service (serviceRequest catalogHrn call) =
      Request.service (serviceRequest catalogHrn call')) :
    sent c sdkUserAgent lookupUrl catalogHrn call =
      sent c sdkUserAgent lookupUrl catalogHrn call' ↔ call = call' := by
  constructor
  · intro h
    obtain ⟨request, hrequest, hrouted⟩ := exists_httpRequest
      (c := { c with baseUrl := baseUrl lookupUrl call }) hdefault sdkUserAgent hsafe
      (verb_serviceRequest_ne_head catalogHrn call)
    obtain ⟨request', hrequest', hrouted'⟩ := exists_httpRequest
      (c := { c with baseUrl := baseUrl lookupUrl call' }) hdefault sdkUserAgent hsafe'
      (verb_serviceRequest_ne_head catalogHrn call')
    obtain rfl : request = request' :=
      Option.some.inj (hrequest.symm.trans (h.trans hrequest'))
    have hsame : serviceRequest catalogHrn call = serviceRequest catalogHrn call' := by
      dsimp only at hrouted hrouted'
      rw [hurl, hservice, hrouted'] at hrouted
      exact Option.some.inj hrouted.symm
    exact serviceRequest_inj hurl hsame
  · rintro rfl
    rfl

/-- Two partitions asked for together, and one whose name looks like both of them without the sign
between, for the example. -/
def partitionsCall (partitions : List (List Char)) : NetworkCall :=
  .getPartitionsbyId "https://query/v1".toList ['l'] partitions (some 3) none

theorem sent_eq_sent_example :
    sent someClient [] [] [] (partitionsCall [['a'], ['b']]) ≠
      sent someClient [] [] [] (partitionsCall ["a=partition=b".toList]) := by
  have hsafe : ∀ partitions : List (List Char), partitions ≠ [] →
      (∀ text ∈ partitions, '&' ∉ text ∧ '#' ∉ text) →
      Request.Safe (serviceRequest [] (partitionsCall partitions)) := by
    intro partitions hne hfree
    refine ⟨?_, ?_, ?_, ?_⟩
    · show ∀ text ∈ ["layers".toList, ['l'], "partitions".toList], _
      decide
    · intro text htext
      exact hfree text (by simpa [Request.billingTag, Request.partitions,
        Request.additionalFields, serviceRequest, partitionsCall] using htext)
    · intro fields hfields
      cases hfields
    · intro layerId version fields tag h
      cases h
      exact hne rfl
  intro h
  have hsame := (sent_eq_sent_iff (c := someClient) (fun p hp => absurd hp List.not_mem_nil) _ _ _
    (partitionsCall [['a'], ['b']]) (partitionsCall ["a=partition=b".toList])
    (hsafe _ (by decide) (by decide)) (hsafe _ (by decide) (by decide)) rfl rfl).mp h
  exact absurd hsame (by decide)

end Results

end OlpEdgeSdk.Analysis.ServiceRequests

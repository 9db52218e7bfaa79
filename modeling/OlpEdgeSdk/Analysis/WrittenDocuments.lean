import OlpEdgeSdk.Analysis.JsonRoundTrips
import OlpEdgeSdk.Interface.StreamQueue
import OlpEdgeSdk.Model.WriteDocuments

/-!
# What the write service makes of its requests

A request of the stream queue that was left in the cache as text comes back as `reread`: with its
texts and its data up to their first null, and with the members that were not set as empty ones
(`fromJson_toJson`). `answers_over_json` carries this through every sequence of calls of the
queue. An index with metadata is not serialized at all (`toObject_eq`).
-/

set_option autoImplicit false

namespace OlpEdgeSdk.Analysis.WrittenDocuments

open OlpEdgeSdk.Base OlpEdgeSdk.Interface OlpEdgeSdk.Model Json

/-! ## Requests of the stream queue -/

section Requests

/-- What a request is after it was written and parsed. -/
def reread (request : PublishDataRequest) : PublishDataRequest where
  data := request.data.map fun data => data.takeWhile (· ≠ 0)
  layerId := cString request.layerId
  traceId := some (cString (request.traceId.getD []))
  billingTag := some (cString (request.billingTag.getD []))
  checksum := some (cString (request.checksum.getD []))

theorem toNat_charOfByte (b : UInt8) : (charOfByte b).toNat = b.toNat := by
  have hvalid : Nat.isValidChar b.toNat := Or.inl (by have := b.toNat_lt; omega)
  rw [charOfByte, Char.ofNat, dif_pos hvalid]
  rfl

theorem charOfByte_eq_null_iff (b : UInt8) : charOfByte b = Char.ofNat 0 ↔ b = 0 := by
  constructor
  · intro h
    have hnat := congrArg Char.toNat h
    rw [toNat_charOfByte] at hnat
    exact UInt8.toNat_inj.mp hnat
  · rintro rfl
    rfl

theorem byteOfChar_charOfByte (b : UInt8) : byteOfChar (charOfByte b) = b := by
  rw [byteOfChar, toNat_charOfByte, UInt8.ofNat_toNat]

/-- The bytes that come back: those before the first null. -/
theorem bytes_of_cString (data : List UInt8) :
    (cString (data.map charOfByte)).map byteOfChar = data.takeWhile (· ≠ 0) := by
  have hid : byteOfChar ∘ charOfByte = id := funext byteOfChar_charOfByte
  rw [cString, List.takeWhile_map, List.map_map, hid, List.map_id]
  congr 1
  funext b
  simp [charOfByte_eq_null_iff]

/-- **What a request becomes.** -/
theorem fromJson_toJson (request : PublishDataRequest) :
    PublishDataRequest.fromJson request.toJson = some (reread request) := by
  obtain ⟨data, layerId, traceId, billingTag, checksum⟩ := request
  cases data <;> cases traceId <;> cases billingTag <;> cases checksum <;>
    simp [PublishDataRequest.fromJson, PublishDataRequest.toJson, parse, findMember, fromJson,
      FromJson.blank, reread, bytes_of_cString, cString_cString]

theorem some_cString_eq_iff (member : Option (List Char)) :
    some (cString (member.getD [])) = member ↔
      ∃ text, member = some text ∧ Char.ofNat 0 ∉ text := by
  cases member with
  | none => simp
  | some text => simp [cString_eq_iff]

theorem map_takeWhile_eq_iff (data : Option (List UInt8)) :
    data.map (fun data => data.takeWhile (· ≠ 0)) = data ↔
      ∀ bytes, data = some bytes → 0 ∉ bytes := by
  cases data with
  | none => simp
  | some bytes =>
    simp only [Option.map_some, Option.some.injEq, forall_eq', List.takeWhile_eq_self_iff]
    constructor
    · intro h hmem
      exact absurd rfl (of_decide_eq_true (h 0 hmem))
    · intro h b hb
      apply decide_eq_true
      rintro rfl
      exact h hb

/-- **Which requests survive.** -/
theorem reread_eq_iff (request : PublishDataRequest) :
    reread request = request ↔
      (∀ data, request.data = some data → 0 ∉ data) ∧ Char.ofNat 0 ∉ request.layerId ∧
        (∃ text, request.traceId = some text ∧ Char.ofNat 0 ∉ text) ∧
        (∃ text, request.billingTag = some text ∧ Char.ofNat 0 ∉ text) ∧
        ∃ text, request.checksum = some text ∧ Char.ofNat 0 ∉ text := by
  obtain ⟨data, layerId, traceId, billingTag, checksum⟩ := request
  rw [reread, PublishDataRequest.mk.injEq]
  exact and_congr (map_takeWhile_eq_iff data) (and_congr cString_eq_iff
    (and_congr (some_cString_eq_iff traceId)
      (and_congr (some_cString_eq_iff billingTag) (some_cString_eq_iff checksum))))

/-- The text of a request is parsed into what `reread` says. -/
theorem jsonCodec_parse_serialize (text : JsonText) (request : PublishDataRequest)
    (hread : text.read (text.write (toJson request)) = toJson request)
    (hnull : Char.ofNat 0 ∉ text.write (toJson request)) :
    (StreamLayerClientImpl.jsonCodec text).parse
      ((StreamLayerClientImpl.jsonCodec text).serialize request) = reread request := by
  show (parseText text (serializeText text request)).getD FromJson.blank = reread request
  rw [JsonRoundTrips.parseText_serializeText text request hread hnull (.inl ⟨_, rfl⟩)]
  show (PublishDataRequest.fromJson request.toJson).getD FromJson.blank = reread request
  rw [fromJson_toJson]
  rfl

/-- A request with everything set, and a library that knows its text alone. -/
def fullRequest : PublishDataRequest :=
  ⟨some [104, 105], "layer".toList, some "trace".toList, some "billing".toList, some []⟩

def fullRequestText : JsonText where
  write _ := "\x7b\"data\":\"hi\",\"layerId\":\"layer\",\"traceId\":\"trace\"\x7d".toList
  read _ := fullRequest.toJson

end Requests

/-! ## The queue over JSON -/

section Queue

open StreamLayerClientImpl

/-- The same call of a first-in-first-out list that gives a request out as it was put in, or
reread if the cache has only its text. -/
def rereadingCall (maximumRequests : Option ℕ) (f : Fifo PublishDataRequest) :
    Call → Fifo PublishDataRequest × Answer
  | .queue request _ _ _ =>
    match refusal maximumRequests request f.waiting.length with
    | some error => (f, .queued (some error))
    | none => (f.push request, .queued none)
  | .popFromQueue _ .object => (f.pop, .popped f.waiting.head?)
  | .popFromQueue _ .encoded => (f.pop, .popped (f.waiting.head?.map reread))
  | .queueSize _ => (f, .size f.waiting.length)

/-- A uuid is generated that no key of the cache is, and the JSON library parses the text it
writes for the request. -/
def Writable (text : JsonText) (c : Client) : Call → Prop
  | .queue request publishDataKey _ _ =>
    (text.read (text.write (toJson request)) = toJson request ∧
      Char.ofNat 0 ∉ text.write (toJson request)) ∧
      ∀ cache ∈ c.cache, cache.find publishDataKey.text = none
  | _ => True

/-- The client's cache holds what waits in the list. -/
structure Keeps (text : JsonText) (catalog : HRN) (maximumRequests : Option ℕ)
    (others : KeyValueCache) (c : Client) (f : Fifo PublishDataRequest) : Prop where
  catalog_eq : c.catalog = catalog
  maximum_eq : c.maximumRequests = maximumRequests
  holds : ∃ cache pending, c.cache = some cache ∧
    Holds (jsonCodec text) (uuidListKey c) others cache pending ∧
    pending.map Queued.request = f.waiting ∧
    ∀ q ∈ pending,
      (jsonCodec text).parse ((jsonCodec text).serialize q.request) = reread q.request

variable {text : JsonText} {catalog : HRN} {maximumRequests : Option ℕ}
  {others : KeyValueCache} {c : Client} {f : Fifo PublishDataRequest}

/-- What is read of the oldest request. -/
theorem readRequest_reread {key : List Char} {cache : KeyValueCache} {q : Queued}
    {pending : List Queued}
    (h : Holds (jsonCodec text) key others cache (q :: pending))
    (hcodec : (jsonCodec text).parse ((jsonCodec text).serialize q.request) = reread q.request)
    (source : Source) :
    readRequest (jsonCodec text) cache q.uuid (some source) =
      some (match source with
        | .object => q.request
        | .encoded => reread q.request) := by
  have hfind := h.stored q List.mem_cons_self
  simp only [readRequest, Option.bind_some, StreamLayerClientImpl.get, hfind, Option.map_some]
  cases source with
  | object => rfl
  | encoded => simp only [requestEntry, hcodec]

theorem keeps_queue (h : Keeps text catalog maximumRequests others c f)
    (request : PublishDataRequest) (u : Uuid) (sizeSource listSource : Source)
    (hwritable : Writable text c (.queue request u sizeSource listSource)) :
    ∃ c', call (jsonCodec text) c (.queue request u sizeSource listSource) =
        some (c', (rereadingCall maximumRequests f (.queue request u sizeSource listSource)).2) ∧
      Keeps text catalog maximumRequests others c'
        (rereadingCall maximumRequests f (.queue request u sizeSource listSource)).1 := by
  obtain ⟨hcatalog, hmaximum, cache, pending, hcache, hholds, hwaiting, hcodec⟩ := h
  obtain ⟨⟨hread, hnull⟩, hnew⟩ := hwritable
  have hlength : (pending.map Queued.uuid).length = f.waiting.length := by
    rw [← hwaiting, List.length_map, List.length_map]
  have hrefusal := queueRefusal_of_listed hcache hholds.listed request sizeSource
  rw [hmaximum, hlength] at hrefusal
  cases hcase : refusal maximumRequests request f.waiting.length with
  | some error =>
    refine ⟨c, ?_, ?_⟩
    · simp [call, rereadingCall, queue, hrefusal, hcase]
    · simp only [rereadingCall, hcase]
      exact ⟨hcatalog, hmaximum, cache, pending, hcache, hholds, hwaiting, hcodec⟩
  | none =>
    have happend := append_of_listed hcache hholds.listed (jsonCodec text) request u listSource
    refine ⟨{ c with cache := some (appendedCache (jsonCodec text) (uuidListKey c) cache
      (pending.map Queued.uuid) request u) }, ?_, ?_⟩
    · simp [call, rereadingCall, queue, hrefusal, hcase, happend]
    · simp only [rereadingCall, hcase]
      refine ⟨hcatalog, hmaximum, _, _, rfl, hholds.appended request (hnew cache hcache), ?_, ?_⟩
      · rw [List.map_append, hwaiting]
        rfl
      · intro q hq
        rcases List.mem_append.mp hq with hq | hq
        · exact hcodec q hq
        · rw [List.mem_singleton.mp hq]
          exact jsonCodec_parse_serialize text request hread hnull

theorem keeps_popFromQueue (h : Keeps text catalog maximumRequests others c f)
    (listSource entrySource : Source) :
    ∃ c', call (jsonCodec text) c (.popFromQueue listSource entrySource) =
        some (c', (rereadingCall maximumRequests f (.popFromQueue listSource entrySource)).2) ∧
      Keeps text catalog maximumRequests others c'
        (rereadingCall maximumRequests f (.popFromQueue listSource entrySource)).1 := by
  obtain ⟨hcatalog, hmaximum, cache, pending, hcache, hholds, hwaiting, hcodec⟩ := h
  cases pending with
  | nil =>
    have hempty : f.waiting = [] := hwaiting.symm
    have hpop := popFromQueue_of_listed_nil hcache hholds.listed (jsonCodec text) listSource
      (some entrySource)
    refine ⟨c, ?_, hcatalog, hmaximum, cache, [], hcache, hholds, ?_, hcodec⟩
    · cases entrySource <;> simp [call, rereadingCall, hpop, hempty]
    · cases entrySource <;> simp [rereadingCall, hempty]
  | cons q pending =>
    have hpop := popFromQueue_of_listed_cons hcache hholds.listed (jsonCodec text) listSource
      (some entrySource)
    rw [readRequest_reread hholds (hcodec q List.mem_cons_self)] at hpop
    refine ⟨{ c with cache := some (poppedCache (uuidListKey c) cache q.uuid
      (pending.map Queued.uuid)) }, ?_, hcatalog, hmaximum, _, pending, rfl, hholds.popped,
      ?_, ?_⟩
    · cases entrySource <;> simp [call, rereadingCall, hpop, ← hwaiting]
    · cases entrySource <;> simp [rereadingCall, ← hwaiting]
    · exact fun q' hq' => hcodec q' (List.mem_cons_of_mem _ hq')

/-- **One call.** -/
theorem keeps_call (call' : Call) (h : Keeps text catalog maximumRequests others c f)
    (hwritable : Writable text c call') :
    ∃ c', call (jsonCodec text) c call' =
        some (c', (rereadingCall maximumRequests f call').2) ∧
      Keeps text catalog maximumRequests others c' (rereadingCall maximumRequests f call').1 := by
  cases call' with
  | queue request u sizeSource listSource =>
    exact keeps_queue h request u sizeSource listSource hwritable
  | popFromQueue listSource entrySource => exact keeps_popFromQueue h listSource entrySource
  | queueSize source =>
    obtain ⟨hcatalog, hmaximum, cache, pending, hcache, hholds, hwaiting, hcodec⟩ := h
    have hsize := queueSize_of_listed hcache hholds.listed source
    have hlength : (pending.map Queued.uuid).length = f.waiting.length := by
      rw [← hwaiting, List.length_map, List.length_map]
    rw [hlength] at hsize
    refine ⟨c, ?_, hcatalog, hmaximum, cache, pending, hcache, hholds, hwaiting, hcodec⟩
    simp [call, rereadingCall, hsize]

/-- A request with the members that must be set, and a library that knows its text alone. -/
def bareRequest : PublishDataRequest := ⟨some [104, 105], "layer".toList, none, none, none⟩

def bareRequestText : JsonText where
  write _ := "\x7b\"data\":\"hi\",\"layerId\":\"layer\"\x7d".toList
  read _ := bareRequest.toJson

def emptyQueue : Client :=
  ⟨HRN.parse "hrn:here:data:::catalog".toList, some SortedMap.empty, none⟩

def someUuid : Uuid :=
  ⟨"b7d3f1e2-6c58-4b90-9a41-d02e85c6f713".toList, List.forall_iff_forall_mem.mp (by decide)⟩

end Queue

/-! ## The index -/

section Index

open WriteModel

/-- A field as it stands in the document. -/
def fieldMember : List Char × IndexValue → Option (String × Json)
  | (key, .string value) => some (memberName key, .string value)
  | (key, .int value) => some (memberName key, .int value.toInt)
  | (key, .bool value) => some (memberName key, .bool value)
  | (key, .heretile value) => some (memberName key, .int value.toInt)
  | (key, .timeWindow value) => some (memberName key, .int value.toInt)
  | (_, .unsupported) => none

theorem addField_object (members : List (String × Json)) (field : List Char × IndexValue) :
    addField (.object members) field =
      some (.object (members ++ (fieldMember field).toList)) := by
  obtain ⟨key, value⟩ := field
  cases value with
  | unsupported => simp [addField, fieldMember]
  | _ => rfl

theorem foldlM_addField (members : List (String × Json))
    (fields : List (List Char × IndexValue)) :
    fields.foldlM addField (.object members) =
      some (.object (members ++ fields.filterMap fieldMember)) := by
  induction fields generalizing members with
  | nil => simp
  | cons field fields ih =>
    rw [List.foldlM_cons, addField_object]
    show List.foldlM addField (.object _) fields = _
    rw [ih, List.append_assoc]
    cases hfield : fieldMember field with
    | none => simp [List.filterMap_cons_none hfield]
    | some member => simp [List.filterMap_cons_some hfield]

/-- The document of an index. -/
def indexDocument (x : Index) : Json :=
  .object ([("id", .string (cString x.id)),
      ("fields", .object (x.indexFields.filterMap fieldMember))]
    ++ (x.checksum.map fun checksum => ("checksum", Json.string (cString checksum))).toList
    ++ (x.size.map fun size => ("size", Json.int size.toInt)).toList)

/-- **An index with metadata has no document**; the others have theirs. -/
theorem toObject_eq (x : Index) :
    x.toObject = if x.metadata.getD [] = [] then some (indexDocument x) else none := by
  unfold Index.toObject
  rw [foldlM_addField]
  dsimp only
  rw [foldlM_addMember_null (fun m : List Char × List Char => memberName m.1)
    (fun m => Json.string (cString m.2))]
  split
  · cases hchecksum : x.checksum <;> cases hsize : x.size <;>
      simp [addMember, indexDocument, hchecksum, hsize]
  · simp [addMember]

/-- **What is sent to the index service.** An update has a document iff none of the indexes to be
added has metadata; it then holds the additions and the removals in their order, without the
fields of no known type. -/
theorem updateIndexRequest_toJson_eq (x : UpdateIndexRequest) :
    x.toJson =
      if ∀ addition ∈ x.indexAdditions, addition.metadata.getD [] = [] then
        some (.object [("additions", .array (x.indexAdditions.map indexDocument)),
          ("removals", .array (x.indexRemovals.map fun removal => .string (cString removal)))])
      else none := by
  have hadditions : ∀ additions : List Index, additions.mapM Index.toObject =
      if ∀ addition ∈ additions, addition.metadata.getD [] = [] then
        some (additions.map indexDocument) else none := by
    intro additions
    induction additions with
    | nil => simp
    | cons addition additions ih =>
      have hcons : (∀ a ∈ addition :: additions, a.metadata.getD [] = []) ↔
          addition.metadata.getD [] = [] ∧ ∀ a ∈ additions, a.metadata.getD [] = [] :=
        List.forall_mem_cons
      rw [List.mapM_cons, ih, toObject_eq]
      by_cases hfirst : addition.metadata.getD [] = []
      · by_cases hrest : ∀ a ∈ additions, a.metadata.getD [] = []
        · rw [if_pos hfirst, if_pos hrest, if_pos (hcons.mpr ⟨hfirst, hrest⟩)]
          rfl
        · rw [if_pos hfirst, if_neg hrest, if_neg fun h => hrest (hcons.mp h).2]
          rfl
      · rw [if_neg hfirst, if_neg fun h => hfirst (hcons.mp h).1]
        rfl
  unfold UpdateIndexRequest.toJson
  rw [hadditions]
  split
  · rfl
  · rfl

end Index

end OlpEdgeSdk.Analysis.WrittenDocuments

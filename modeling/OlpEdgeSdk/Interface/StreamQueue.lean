import OlpEdgeSdk.Base.Fifo
import OlpEdgeSdk.Model.StreamLayerQueue

/-!
# The persisted queue as a list

What the cache holds for the queue: under the key of the list the uuids, each with its comma,
and under each uuid its request. `Listed` is the first half and survives lost entries; `Holds`
is both. Each operation of the client is one of the list, whichever way the cache answers.
-/

set_option autoImplicit false

namespace OlpEdgeSdk.Interface

open OlpEdgeSdk.Base OlpEdgeSdk.Model StreamLayerClientImpl

/-! ## Uuids -/

theorem comma_notMem_uuid (u : Uuid) : ',' ∉ u.text := by
  intro h
  rcases u.chars ',' h with hdigit | hletter | hdash
  · exact absurd hdigit (by decide)
  · exact absurd hletter (by decide)
  · exact absurd hdash (by decide)

/-- The key of the list is not a uuid: there is an `s` in it. -/
theorem uuid_ne_listKey (u : Uuid) (c : Client) : u.text ≠ uuidListKey c := by
  intro heq
  have hs : 's' ∈ u.text := by
    rw [heq, uuidListKey]
    exact List.mem_append_right _ (by decide)
  rcases u.chars 's' hs with hdigit | hletter | hdash
  · exact absurd hdigit (by decide)
  · exact absurd hletter (by decide)
  · exact absurd hdash (by decide)

/-- The text of a list of uuids. -/
def uuidText (uuids : List Uuid) : List Char := terminated ',' (uuids.map Uuid.text)

theorem count_uuidText (uuids : List Uuid) : (uuidText uuids).count ',' = uuids.length := by
  have hfree : ∀ item ∈ uuids.map Uuid.text, ',' ∉ item := by
    intro item hitem
    obtain ⟨u, -, rfl⟩ := List.mem_map.mp hitem
    exact comma_notMem_uuid u
  rw [uuidText, count_terminated hfree, List.length_map]

theorem uuidText_append (uuids : List Uuid) (u : Uuid) :
    uuidText (uuids ++ [u]) = uuidText uuids ++ u.text ++ [','] := by
  rw [uuidText, List.map_append, List.map_singleton, terminated_append_singleton, uuidText]

theorem span_uuidText (u : Uuid) (uuids : List Uuid) :
    (uuidText (u :: uuids)).span (· ≠ ',') = (u.text, ',' :: uuidText uuids) :=
  span_terminated_cons (comma_notMem_uuid u) _

/-! ## The list of uuids -/

/-- The entry of the list. -/
def listEntry (uuids : List Uuid) : StreamLayerClientImpl.CacheEntry :=
  ⟨.text (uuidText uuids), uuidText uuids⟩

/-- Under the key the cache lists these uuids, and what is under them, if anything is, are
requests. -/
structure Listed (key : List Char) (cache : KeyValueCache) (uuids : List Uuid) : Prop where
  list : cache.find key = some (listEntry uuids) ∨ (cache.find key = none ∧ uuids = [])
  requests : ∀ u ∈ uuids, ∀ entry, cache.find u.text = some entry →
    ∃ request, entry.value = .request request

theorem Listed.getUuidList {key : List Char} {cache : KeyValueCache} {uuids : List Uuid}
    (h : Listed key cache uuids) (source : Source) :
    ∃ text, getUuidList cache source key = some text ∧
      text.getD [] = uuidText uuids ∧ (text = none → uuids = []) := by
  unfold StreamLayerClientImpl.getUuidList StreamLayerClientImpl.get
  rcases h.list with hfind | ⟨hfind, rfl⟩
  · refine ⟨some (uuidText uuids), ?_, rfl, fun heq => nomatch heq⟩
    rw [hfind]
    cases source <;> rfl
  · refine ⟨none, ?_, rfl, fun _ => rfl⟩
    rw [hfind]
    rfl

/-- The reasons for which `Queue` refuses a request, at a size of the queue. -/
def refusal (maximumRequests : Option ℕ) (request : PublishDataRequest) (size : ℕ) :
    Option String :=
  if request.data.isNone then some "PublishDataRequest does not contain any Data"
  else if request.layerId = [] then some "PublishDataRequest does not contain a Layer ID"
  else if ∃ maximum ∈ maximumRequests, maximum ≤ size then
    some "Maximum number of requests has reached"
  else none

/-- The cache after `Queue` has appended a request. -/
def appendedCache (codec : Codec) (key : List Char) (cache : KeyValueCache) (uuids : List Uuid)
    (request : PublishDataRequest) (u : Uuid) : KeyValueCache :=
  (cache.insert u.text ⟨.request request, codec.serialize request⟩).insert key
    (listEntry (uuids ++ [u]))

/-- The cache after `PopFromQueue` has taken the first uuid off. -/
def poppedCache (key : List Char) (cache : KeyValueCache) (u : Uuid) (uuids : List Uuid) :
    KeyValueCache :=
  (cache.erase u.text).insert key (listEntry uuids)

/-- What `PopFromQueue` reads under a uuid. -/
def readRequest (codec : Codec) (cache : KeyValueCache) (u : Uuid) (source : Option Source) :
    Option PublishDataRequest :=
  (source.bind fun source =>
      StreamLayerClientImpl.get cache source u.text fun s => .request (codec.parse s)).bind
    fun any => match any with
      | .request request => some request
      | .text _ => none

section

variable {c : Client} {cache : KeyValueCache} {uuids : List Uuid} (hc : c.cache = some cache)

include hc

/-- **`QueueSize` is the number of uuids.** -/
theorem queueSize_of_listed (h : Listed (uuidListKey c) cache uuids) (source : Source) :
    queueSize c source = some uuids.length := by
  obtain ⟨text, htext, hgetD, hnone⟩ := h.getUuidList source
  simp only [queueSize, hc, Option.bind_eq_bind, Option.bind_some, htext]
  cases text with
  | none =>
    rw [hnone rfl]
    rfl
  | some s =>
    rw [← count_uuidText, ← hgetD]
    rfl

/-- **What `Queue` refuses** depends on the request and the size alone. -/
theorem queueRefusal_of_listed (h : Listed (uuidListKey c) cache uuids)
    (request : PublishDataRequest) (source : Source) :
    queueRefusal c request source =
      some (refusal c.maximumRequests request uuids.length) := by
  have hsize := queueSize_of_listed hc h source
  unfold queueRefusal refusal
  rw [hc]
  split
  · next hnone => exact absurd hnone (by simp)
  · split
    · rfl
    · split
      · rfl
      · cases hmax : c.maximumRequests with
        | none => simp
        | some maximum =>
          rw [hsize]
          by_cases hroom : uuids.length < maximum
          · simp [Nat.not_le.mpr hroom]
          · simp [Nat.le_of_not_lt hroom]

/-- **The critical section of `Queue`** lists the new uuid last. -/
theorem append_of_listed (h : Listed (uuidListKey c) cache uuids) (codec : Codec)
    (request : PublishDataRequest) (u : Uuid) (source : Source) :
    append codec c request u source = some { c with
      cache := some (appendedCache codec (uuidListKey c) cache uuids request u) } := by
  -- the new entry does not touch the list
  have hlisted : Listed (uuidListKey c)
      (cache.insert u.text ⟨.request request, codec.serialize request⟩) uuids := by
    constructor
    · rw [SortedMap.find_insert, if_neg (Ne.symm (uuid_ne_listKey u c))]
      exact h.list
    · intro v hv entry hentry
      rw [SortedMap.find_insert] at hentry
      split at hentry
      · exact ⟨request, by rw [← Option.some.inj hentry]⟩
      · exact h.requests v hv entry hentry
  obtain ⟨text, htext, hgetD, -⟩ := hlisted.getUuidList source
  simp only [append, hc, Option.bind_eq_bind, Option.bind_some, htext, hgetD, appendedCache,
    listEntry, uuidText_append]
  rfl

/-- **`PopFromQueue` of an empty queue** changes nothing and returns nothing. -/
theorem popFromQueue_of_listed_nil (h : Listed (uuidListKey c) cache []) (codec : Codec)
    (listSource : Source) (entrySource : Option Source) :
    popFromQueue codec c listSource entrySource = some (c, none) := by
  obtain ⟨text, htext, hgetD, -⟩ := h.getUuidList listSource
  simp only [popFromQueue, hc, Option.bind_eq_bind, Option.bind_some, htext]
  cases text with
  | none => rfl
  | some s =>
    have hs : s = [] := hgetD
    rw [hs]
    rfl

/-- **`PopFromQueue`** takes the first uuid off the list and what is under it out of the cache;
it returns what could be read there. -/
theorem popFromQueue_of_listed_cons {u : Uuid} (h : Listed (uuidListKey c) cache (u :: uuids))
    (codec : Codec) (listSource : Source) (entrySource : Option Source) :
    popFromQueue codec c listSource entrySource =
      some ({ c with cache := some (poppedCache (uuidListKey c) cache u uuids) },
        readRequest codec cache u entrySource) := by
  obtain ⟨text, htext, hgetD, hnone⟩ := h.getUuidList listSource
  simp only [popFromQueue, hc, Option.bind_eq_bind, Option.bind_some, htext]
  cases text with
  | none => exact absurd (hnone rfl) (by simp)
  | some s =>
    have hs : s = uuidText (u :: uuids) := hgetD
    dsimp only
    rw [hs, span_uuidText]
    dsimp only
    unfold readRequest
    cases hany : (entrySource.bind fun source =>
        StreamLayerClientImpl.get cache source u.text fun s => .request (codec.parse s)) with
    | none => rfl
    | some any =>
      cases any with
      | request request => rfl
      | text t =>
        -- a text would be a failed cast, but what is stored under a uuid is a request
        exfalso
        obtain ⟨source, -, hget⟩ := Option.bind_eq_some_iff.mp hany
        obtain ⟨entry, hfind, hvalue⟩ := Option.map_eq_some_iff.mp hget
        obtain ⟨request, hrequest⟩ := h.requests u List.mem_cons_self entry hfind
        cases source with
        | object =>
          rw [hrequest] at hvalue
          cases hvalue
        | encoded => cases hvalue

end

theorem Listed.appended {c : Client} {cache : KeyValueCache} {uuids : List Uuid}
    (h : Listed (uuidListKey c) cache uuids) (codec : Codec) (request : PublishDataRequest)
    (u : Uuid) :
    Listed (uuidListKey c) (appendedCache codec (uuidListKey c) cache uuids request u)
      (uuids ++ [u]) := by
  constructor
  · exact Or.inl (SortedMap.find_insert_self _ _ _)
  · intro v hv entry hentry
    rw [appendedCache, SortedMap.find_insert, if_neg (uuid_ne_listKey v c),
      SortedMap.find_insert] at hentry
    split at hentry
    · exact ⟨request, by rw [← Option.some.inj hentry]⟩
    · next hvu =>
      rcases List.mem_append.mp hv with hv | hv
      · exact h.requests v hv entry hentry
      · rw [List.mem_singleton.mp hv] at hvu
        exact absurd rfl hvu

theorem Listed.popped {c : Client} {cache : KeyValueCache} {u : Uuid} {uuids : List Uuid}
    (h : Listed (uuidListKey c) cache (u :: uuids)) :
    Listed (uuidListKey c) (poppedCache (uuidListKey c) cache u uuids) uuids := by
  constructor
  · exact Or.inl (SortedMap.find_insert_self _ _ _)
  · intro v hv entry hentry
    rw [poppedCache, SortedMap.find_insert, if_neg (uuid_ne_listKey v c),
      SortedMap.find_erase] at hentry
    split at hentry
    · cases hentry
    · exact h.requests v (List.mem_cons_of_mem _ hv) entry hentry

/-! ## The requests -/

/-- A request of the queue and the uuid it is stored under. -/
structure Queued where
  uuid : Uuid
  request : PublishDataRequest

/-- What is stored for a request. -/
def requestEntry (codec : Codec) (request : PublishDataRequest) :
    StreamLayerClientImpl.CacheEntry :=
  ⟨.request request, codec.serialize request⟩

/-- **What the cache holds for a queue**: the list of the uuids, under each uuid its request,
and nothing else that was not there before. -/
structure Holds (codec : Codec) (key : List Char) (others cache : KeyValueCache)
    (pending : List Queued) : Prop where
  listed : Listed key cache (pending.map Queued.uuid)
  stored : ∀ q ∈ pending, cache.find q.uuid.text = some (requestEntry codec q.request)
  rest : ∀ name, name ≠ key → (∀ q ∈ pending, q.uuid.text ≠ name) →
    cache.find name = others.find name
  fresh : ∀ q ∈ pending, others.find q.uuid.text = none
  distinct : (pending.map fun q => q.uuid.text).Nodup

/-- A cache that has no list of uuids holds the empty queue. -/
theorem holds_nil {key : List Char} {cache : KeyValueCache} (codec : Codec)
    (h : cache.find key = none) : Holds codec key cache cache [] where
  listed := ⟨Or.inr ⟨h, rfl⟩, by simp⟩
  stored := by simp
  rest := by simp
  fresh := by simp
  distinct := List.nodup_nil

theorem Holds.appended {codec : Codec} {c : Client} {others cache : KeyValueCache}
    {pending : List Queued} (h : Holds codec (uuidListKey c) others cache pending)
    (request : PublishDataRequest) {u : Uuid} (hfresh : cache.find u.text = none) :
    Holds codec (uuidListKey c) others
      (appendedCache codec (uuidListKey c) cache (pending.map Queued.uuid) request u)
      (pending ++ [⟨u, request⟩]) := by
  have hnew : ∀ q ∈ pending, q.uuid.text ≠ u.text := by
    intro q hq heq
    rw [← heq, h.stored q hq] at hfresh
    cases hfresh
  constructor
  · rw [List.map_append]
    exact h.listed.appended codec request u
  · intro q hq
    rw [appendedCache, SortedMap.find_insert, if_neg (uuid_ne_listKey q.uuid c),
      SortedMap.find_insert]
    rcases List.mem_append.mp hq with hq | hq
    · rw [if_neg (hnew q hq), h.stored q hq]
    · rw [List.mem_singleton.mp hq, if_pos rfl]
      rfl
  · intro name hname hother
    have hu : name ≠ u.text := fun heq => hother ⟨u, request⟩ (by simp) heq.symm
    rw [appendedCache, SortedMap.find_insert, if_neg hname, SortedMap.find_insert, if_neg hu]
    exact h.rest name hname fun q hq => hother q (List.mem_append_left _ hq)
  · intro q hq
    rcases List.mem_append.mp hq with hq | hq
    · exact h.fresh q hq
    · rw [List.mem_singleton.mp hq, ← h.rest u.text (uuid_ne_listKey u c) hnew, hfresh]
  · rw [List.map_append, List.nodup_append]
    refine ⟨h.distinct, by simp, ?_⟩
    intro a ha b hb
    obtain ⟨q, hq, rfl⟩ := List.mem_map.mp ha
    rw [List.map_singleton, List.mem_singleton] at hb
    rw [hb]
    exact hnew q hq

theorem Holds.popped {codec : Codec} {c : Client} {others cache : KeyValueCache} {q : Queued}
    {pending : List Queued} (h : Holds codec (uuidListKey c) others cache (q :: pending)) :
    Holds codec (uuidListKey c) others
      (poppedCache (uuidListKey c) cache q.uuid (pending.map Queued.uuid)) pending := by
  have hdistinct := h.distinct
  rw [List.map_cons, List.nodup_cons] at hdistinct
  have hne : ∀ q' ∈ pending, q'.uuid.text ≠ q.uuid.text := by
    intro q' hq' heq
    exact hdistinct.1 (List.mem_map.mpr ⟨q', hq', heq⟩)
  constructor
  · exact h.listed.popped
  · intro q' hq'
    rw [poppedCache, SortedMap.find_insert, if_neg (uuid_ne_listKey q'.uuid c),
      SortedMap.find_erase, if_neg (hne q' hq')]
    exact h.stored q' (List.mem_cons_of_mem _ hq')
  · intro name hname hother
    rw [poppedCache, SortedMap.find_insert, if_neg hname, SortedMap.find_erase]
    split
    · next heq => rw [heq, h.fresh q List.mem_cons_self]
    · next hnq =>
      refine h.rest name hname fun q' hq' => ?_
      rcases List.mem_cons.mp hq' with rfl | hq'
      · exact Ne.symm hnq
      · exact hother q' hq'
  · exact fun q' hq' => h.fresh q' (List.mem_cons_of_mem _ hq')
  · exact hdistinct.2

/-- **The oldest request is read back**, whichever way the cache answers. -/
theorem Holds.readRequest_head {codec : Codec} {key : List Char} {others cache : KeyValueCache}
    {q : Queued} {pending : List Queued} (h : Holds codec key others cache (q :: pending))
    (hcodec : codec.parse (codec.serialize q.request) = q.request) (source : Source) :
    readRequest codec cache q.uuid (some source) = some q.request := by
  have hfind := h.stored q List.mem_cons_self
  simp only [readRequest, Option.bind_some, StreamLayerClientImpl.get, hfind, Option.map_some]
  cases source with
  | object => rfl
  | encoded =>
    simp only [requestEntry, hcodec]

end OlpEdgeSdk.Interface

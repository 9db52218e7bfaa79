import OlpEdgeSdk.Interface.StreamQueue

/-!
# Runs of the persisted queue

Any sequence of `Queue`, `PopFromQueue` and `QueueSize` answers as a first-in-first-out list
does, over a reliable cache.
-/

set_option autoImplicit false

namespace OlpEdgeSdk.Analysis.StreamQueue

open OlpEdgeSdk.Base OlpEdgeSdk.Interface OlpEdgeSdk.Model StreamLayerClientImpl

/-! ## The list it stands for -/

/-- The same call of a first-in-first-out list: `Queue` appends its request unless it refuses
it, `PopFromQueue` returns the oldest one and takes it out, `QueueSize` is the length. -/
def fifoCall (maximumRequests : Option ℕ) (f : Fifo PublishDataRequest) :
    Call → Fifo PublishDataRequest × Answer
  | .queue request _ _ _ =>
    match refusal maximumRequests request f.waiting.length with
    | some error => (f, .queued (some error))
    | none => (f.push request, .queued none)
  | .popFromQueue _ _ => (f.pop, .popped f.waiting.head?)
  | .queueSize _ => (f, .size f.waiting.length)

/-- A uuid is generated that no key of the cache is, and the request can be read back from its
text. -/
def Fresh (codec : Codec) (c : Client) : Call → Prop
  | .queue request publishDataKey _ _ =>
    codec.parse (codec.serialize request) = request ∧
      ∀ cache ∈ c.cache, cache.find publishDataKey.text = none
  | _ => True

/-- The client's cache holds what waits in the list. -/
structure Represents (codec : Codec) (catalog : HRN) (maximumRequests : Option ℕ)
    (others : KeyValueCache) (c : Client) (f : Fifo PublishDataRequest) : Prop where
  catalog_eq : c.catalog = catalog
  maximum_eq : c.maximumRequests = maximumRequests
  holds : ∃ cache pending, c.cache = some cache ∧
    Holds codec (uuidListKey c) others cache pending ∧
    pending.map Queued.request = f.waiting ∧
    ∀ q ∈ pending, codec.parse (codec.serialize q.request) = q.request

/-- **One call** answers as the list does and leaves the cache holding what the list has. -/
theorem call_represents {codec : Codec} {catalog : HRN} {maximumRequests : Option ℕ}
    {others : KeyValueCache} {c : Client} {f : Fifo PublishDataRequest} (call' : Call)
    (h : Represents codec catalog maximumRequests others c f) (hfresh : Fresh codec c call') :
    ∃ c', call codec c call' = some (c', (fifoCall maximumRequests f call').2) ∧
      Represents codec catalog maximumRequests others c' (fifoCall maximumRequests f call').1 := by
  obtain ⟨hcatalog, hmaximum, cache, pending, hcache, hholds, hwaiting, hcodec⟩ := h
  have hlength : (pending.map Queued.uuid).length = f.waiting.length := by
    rw [← hwaiting, List.length_map, List.length_map]
  cases call' with
  | queue request u sizeSource listSource =>
    obtain ⟨hparse, hnew⟩ := hfresh
    have hrefusal := queueRefusal_of_listed hcache hholds.listed request sizeSource
    rw [hmaximum, hlength] at hrefusal
    cases hcase : refusal maximumRequests request f.waiting.length with
    | some error =>
      refine ⟨c, ?_, ?_⟩
      · simp [call, fifoCall, queue, hrefusal, hcase]
      · simp only [fifoCall, hcase]
        exact ⟨hcatalog, hmaximum, cache, pending, hcache, hholds, hwaiting, hcodec⟩
    | none =>
      have happend := append_of_listed hcache hholds.listed codec request u listSource
      refine ⟨{ c with cache := some (appendedCache codec (uuidListKey c) cache
        (pending.map Queued.uuid) request u) }, ?_, ?_⟩
      · simp [call, fifoCall, queue, hrefusal, hcase, happend]
      · simp only [fifoCall, hcase]
        refine ⟨hcatalog, hmaximum, _, _, rfl, hholds.appended request (hnew cache hcache), ?_, ?_⟩
        · rw [List.map_append, hwaiting]
          rfl
        · intro q hq
          rcases List.mem_append.mp hq with hq | hq
          · exact hcodec q hq
          · rw [List.mem_singleton.mp hq]
            exact hparse
  | popFromQueue listSource entrySource =>
    cases pending with
    | nil =>
      have hempty : f.waiting = [] := hwaiting.symm
      have hpop := popFromQueue_of_listed_nil hcache hholds.listed codec listSource
        (some entrySource)
      refine ⟨c, ?_, hcatalog, hmaximum, cache, [], hcache, hholds, ?_, hcodec⟩
      · simp [call, fifoCall, hpop, hempty]
      · simp [fifoCall, hempty]
    | cons q pending =>
      have hpop := popFromQueue_of_listed_cons hcache hholds.listed codec listSource
        (some entrySource)
      rw [hholds.readRequest_head (hcodec q List.mem_cons_self)] at hpop
      refine ⟨{ c with cache := some (poppedCache (uuidListKey c) cache q.uuid
        (pending.map Queued.uuid)) }, ?_, hcatalog, hmaximum, _, pending, rfl, hholds.popped,
        ?_, ?_⟩
      · simp [call, fifoCall, hpop, ← hwaiting]
      · simp [fifoCall, ← hwaiting]
      · exact fun q' hq' => hcodec q' (List.mem_cons_of_mem _ hq')
  | queueSize source =>
    have hsize := queueSize_of_listed hcache hholds.listed source
    rw [hlength] at hsize
    refine ⟨c, ?_, hcatalog, hmaximum, cache, pending, hcache, hholds, hwaiting, hcodec⟩
    simp [call, fifoCall, hsize]

/-! ## Histories -/

/-- The requests that `Queue` took, in order. -/
def accepted (calls : List Call) (answers : List Answer) : List PublishDataRequest :=
  (calls.zip answers).filterMap fun
    | (.queue request _ _ _, .queued none) => some request
    | _ => none

/-- The requests that `PopFromQueue` returned, in order. -/
def returned (answers : List Answer) : List PublishDataRequest :=
  answers.filterMap fun
    | .popped request => request
    | _ => none

/-- The history of the list is the history of the calls. -/
theorem fifoCall_history (maximumRequests : Option ℕ) (f : Fifo PublishDataRequest)
    (calls : List Call) :
    (answersOf (fifoCall maximumRequests) f calls).1.pushed =
        f.pushed ++ accepted calls (answersOf (fifoCall maximumRequests) f calls).2 ∧
      (answersOf (fifoCall maximumRequests) f calls).1.popped =
        f.popped ++ returned (answersOf (fifoCall maximumRequests) f calls).2 := by
  induction calls generalizing f with
  | nil => simp [answersOf, accepted, returned]
  | cons c calls ih =>
    obtain ⟨hpushed, hpopped⟩ := ih (fifoCall maximumRequests f c).1
    simp only [answersOf, hpushed, hpopped]
    cases c with
    | queue request u sizeSource listSource =>
      cases hcase : refusal maximumRequests request f.waiting.length with
      | some error => simp [fifoCall, hcase, accepted, returned]
      | none => simp [fifoCall, hcase, accepted, returned, Fifo.push]
    | popFromQueue listSource entrySource =>
      cases hwaiting : f.waiting with
      | nil => simp [fifoCall, hwaiting, accepted, returned, Fifo.pop]
      | cons request waiting => simp [fifoCall, hwaiting, accepted, returned, Fifo.pop]
    | queueSize source => simp [fifoCall, accepted, returned]

/-- **The persisted queue is a first-in-first-out list.** From a cache without a list, with
uuids that are new and requests that can be read back, every sequence of calls returns and
answers as the list does; at its end the cache holds exactly what waits in the list, under the
uuids the text lists; and the requests taken in are those returned, in order, and those that
wait, so that none is returned twice. -/
theorem streamQueue_fifo (codec : Codec) (c : Client) (cache : KeyValueCache)
    (hcache : c.cache = some cache) (hempty : cache.find (uuidListKey c) = none)
    (calls : List Call)
    (hfresh : Along (fun c call' => (call codec c call').map Prod.fst) (Fresh codec) c calls) :
    ∃ c' cache' pending,
      answersFrom (call codec) c calls =
          some (c', (answersOf (fifoCall c.maximumRequests) (Fifo.start []) calls).2) ∧
        c'.cache = some cache' ∧ Holds codec (uuidListKey c) cache cache' pending ∧
        pending.map Queued.request =
          (answersOf (fifoCall c.maximumRequests) (Fifo.start []) calls).1.waiting ∧
        accepted calls (answersOf (fifoCall c.maximumRequests) (Fifo.start []) calls).2 =
          returned (answersOf (fifoCall c.maximumRequests) (Fifo.start []) calls).2 ++
            pending.map Queued.request := by
  have hstart : Represents codec c.catalog c.maximumRequests cache c (Fifo.start []) :=
    ⟨rfl, rfl, cache, [], hcache, holds_nil codec hempty, rfl, by simp⟩
  obtain ⟨c', hanswers, hcatalog, -, cache', pending, hcache', hholds, hwaiting, -⟩ :=
    answersFrom_of_simulation (fun _ _ call' => call_represents call') hstart hfresh
  have hkey : uuidListKey c' = uuidListKey c := by rw [uuidListKey, uuidListKey, hcatalog]
  rw [hkey] at hholds
  refine ⟨c', cache', pending, hanswers, hcache', hholds, hwaiting, ?_⟩
  obtain ⟨hpushed, hpopped⟩ := fifoCall_history c.maximumRequests (Fifo.start []) calls
  have hbalance := (answersOf (fifoCall c.maximumRequests) (Fifo.start []) calls).1.balance
  rw [hpushed, hpopped, ← hwaiting] at hbalance
  simpa [Fifo.start] using hbalance

/-- A request with two bytes of data. -/
def twoBytes : PublishDataRequest := ⟨some [1, 2], "layer".toList, none, none, none⟩

/-- A codec for that request. -/
def twoBytesCodec : Codec :=
  ⟨fun _ => "\x7b\"data\":\"AQI=\",\"layerId\":\"layer\"\x7d".toList, fun _ => twoBytes⟩

def firstUuid : Uuid :=
  ⟨"5a54b6f4-31b3-4d0b-8d4c-7e2f3c1a9b0e".toList, List.forall_iff_forall_mem.mp (by decide)⟩

def secondUuid : Uuid :=
  ⟨"0c9e7a52-96de-4a0f-b1a3-2f64c8d05e17".toList, List.forall_iff_forall_mem.mp (by decide)⟩

def thirdUuid : Uuid :=
  ⟨"e3b1d6c0-4f7a-4a55-9d27-18b6f0a9c3d2".toList, List.forall_iff_forall_mem.mp (by decide)⟩

/-- A client with an empty cache and room for one request. -/
def roomForOne : Client :=
  ⟨HRN.parse "hrn:here:data:::catalog".toList, some SortedMap.empty, some 1⟩

theorem streamQueue_fifo_three_calls :
    ∃ c', answersFrom (call twoBytesCodec) roomForOne
      [.queue twoBytes firstUuid .object .object, .popFromQueue .object .encoded,
        .queueSize .object] = some (c', [.queued none, .popped (some twoBytes), .size 0]) := by
  obtain ⟨c', -, -, hanswers, -⟩ := streamQueue_fifo twoBytesCodec roomForOne SortedMap.empty
    rfl rfl
    [.queue twoBytes firstUuid .object .object, .popFromQueue .object .encoded, .queueSize .object]
    ⟨⟨rfl, fun cache hcache => by cases hcache; rfl⟩,
      fun _ _ => ⟨trivial, fun _ _ => ⟨trivial, fun _ _ => trivial⟩⟩⟩
  exact ⟨c', hanswers⟩

/-! ## The bound on the queue -/

/-- A request that passes the checks of `Queue` that do not depend on the queue. -/
def Wellformed (request : PublishDataRequest) : Prop :=
  request.data.isSome = true ∧ request.layerId ≠ []

theorem refusal_eq_none_iff {m n : ℕ} {request : PublishDataRequest} :
    refusal (some m) request n = none ↔ Wellformed request ∧ n < m := by
  unfold refusal Wellformed
  cases hdata : request.data with
  | none => simp
  | some data =>
    by_cases hlayer : request.layerId = []
    · simp [hlayer]
    · simp [hlayer]

/-- What holds in every state: the cache lists the uuids, and whoever has passed the checks did
so with a well-formed request. -/
structure Counted (m : ℕ) (s : Callers) (uuids : List Uuid) : Prop where
  maximum_eq : s.client.maximumRequests = some m
  listed : ∃ cache, s.client.cache = some cache ∧ Listed (uuidListKey s.client) cache uuids
  passed : ∀ request ∈ s.passed, Wellformed request

theorem Counted.queueSize {m : ℕ} {s : Callers} {uuids : List Uuid} (h : Counted m s uuids)
    (source : Source) : queueSize s.client source = some uuids.length := by
  obtain ⟨cache, hcache, hlisted⟩ := h.listed
  exact queueSize_of_listed hcache hlisted source

/-- **Appending counts one more.** -/
theorem Counted.append {m : ℕ} {s : Callers} {uuids : List Uuid} (h : Counted m s uuids)
    (codec : Codec) {i : ℕ} {request : PublishDataRequest} (hi : s.passed[i]? = some request)
    (u : Uuid) (source : Source) :
    ∃ s', enter codec s (.append i u source) = some s' ∧ Counted m s' (uuids ++ [u]) := by
  obtain ⟨cache, hcache, hlisted⟩ := h.listed
  refine ⟨⟨{ s.client with cache := some (appendedCache codec (uuidListKey s.client) cache uuids
    request u) }, s.passed.eraseIdx i⟩, ?_, h.maximum_eq,
    ⟨_, rfl, hlisted.appended codec request u⟩, ?_⟩
  · simp only [StreamLayerClientImpl.enter, hi, Option.bind_eq_bind, Option.bind_some,
      append_of_listed hcache hlisted codec request u source]
    rfl
  · intro other hother
    exact h.passed other (List.mem_of_mem_eraseIdx hother)

/-- **A critical section** other than an append makes the queue no longer. -/
theorem Counted.enter {m : ℕ} {codec : Codec} {s s' : Callers} {uuids : List Uuid} {e : Section}
    (h : Counted m s uuids) (hstep : enter codec s e = some s') :
    ∃ uuids', Counted m s' uuids' ∧ (uuids'.length ≤ uuids.length ∨
      ∃ i u source request, e = .append i u source ∧ s.passed[i]? = some request ∧
        uuids' = uuids ++ [u]) := by
  obtain ⟨cache, hcache, hlisted⟩ := h.listed
  cases e with
  | test request source =>
    have hrefusal := queueRefusal_of_listed hcache hlisted request source
    rw [h.maximum_eq] at hrefusal
    simp only [StreamLayerClientImpl.enter, hrefusal, Option.bind_eq_bind, Option.bind_some]
      at hstep
    cases hcase : refusal (some m) request uuids.length with
    | some error =>
      rw [hcase] at hstep
      cases hstep
      exact ⟨uuids, h, Or.inl le_rfl⟩
    | none =>
      rw [hcase] at hstep
      cases hstep
      refine ⟨uuids, ⟨h.maximum_eq, h.listed, ?_⟩, Or.inl le_rfl⟩
      intro other hother
      rcases List.mem_append.mp hother with hother | hother
      · exact h.passed other hother
      · rw [List.mem_singleton.mp hother]
        exact (refusal_eq_none_iff.mp hcase).1
  | append i u source =>
    cases hi : s.passed[i]? with
    | none =>
      simp [StreamLayerClientImpl.enter, hi] at hstep
    | some request =>
      obtain ⟨s₁, hs₁, hcounted⟩ := h.append codec hi u source
      rw [hstep] at hs₁
      cases hs₁
      exact ⟨uuids ++ [u], hcounted, Or.inr ⟨i, u, source, request, rfl, hi, rfl⟩⟩
  | pop listSource entrySource =>
    cases uuids with
    | nil =>
      have hpop := popFromQueue_of_listed_nil hcache hlisted codec listSource entrySource
      simp only [StreamLayerClientImpl.enter, hpop, Option.bind_eq_bind, Option.bind_some] at hstep
      cases hstep
      exact ⟨[], h, Or.inl le_rfl⟩
    | cons u uuids =>
      have hpop := popFromQueue_of_listed_cons hcache hlisted codec listSource entrySource
      simp only [StreamLayerClientImpl.enter, hpop, Option.bind_eq_bind, Option.bind_some] at hstep
      cases hstep
      exact ⟨uuids, ⟨h.maximum_eq, ⟨_, rfl, hlisted.popped⟩, h.passed⟩, Or.inl (by simp)⟩

/-- The checks that a call has passed, made again when it appends its request, would still
pass. -/
def StillPasses (s : Callers) : Section → Prop
  | .append i _ listSource =>
    ∀ request, s.passed[i]? = some request → queueRefusal s.client request listSource = some none
  | _ => True

theorem Counted.stillPasses_append {m : ℕ} {s : Callers} {uuids : List Uuid}
    (h : Counted m s uuids) {i : ℕ} {request : PublishDataRequest}
    (hi : s.passed[i]? = some request) (u : Uuid) (source : Source) :
    StillPasses s (.append i u source) ↔ uuids.length < m := by
  obtain ⟨cache, hcache, hlisted⟩ := h.listed
  have hrefusal := queueRefusal_of_listed hcache hlisted request source
  rw [h.maximum_eq] at hrefusal
  have hwell : Wellformed request := h.passed request (List.mem_of_getElem? hi)
  simp only [StillPasses]
  constructor
  · intro hpasses
    have hnone := hpasses request hi
    rw [hrefusal, Option.some.injEq] at hnone
    exact (refusal_eq_none_iff.mp hnone).2
  · intro hlt other hother
    rw [hi] at hother
    cases hother
    rw [hrefusal, Option.some.injEq]
    exact refusal_eq_none_iff.mpr ⟨hwell, hlt⟩

end OlpEdgeSdk.Analysis.StreamQueue

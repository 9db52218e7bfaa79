import OlpEdgeSdk.Analysis.StreamQueueRuns
import OlpEdgeSdk.Model.AutoFlushTimestamps

/-!
# The timestamps and the queue

The times that were pushed for the queued requests are always as many as there are requests.
`partition_timestamp_queue_` is the list of them as long as the loop of `Flush` can read every
entry that it pops; an entry that is missing takes its request out of the queue and leaves its
time behind, and no later step makes up for it.
-/

set_option autoImplicit false

namespace OlpEdgeSdk.Analysis.OldestEvents

open OlpEdgeSdk.Base OlpEdgeSdk.Interface OlpEdgeSdk.Model StreamLayerClientImpl
  AutoFlushController OlpEdgeSdk.Analysis.StreamQueue

/-- What holds whatever is lost: old events are flushed, the cache lists the uuids, and there
is one time for each of them. -/
structure Counted (t : Tracked) (uuids : List Uuid) : Prop where
  interval_pos : 0 < t.forceFlushInterval
  listed : ∃ cache, t.client.cache = some cache ∧ Listed (uuidListKey t.client) cache uuids
  length_eq : t.pushedFor.length = uuids.length

theorem Counted.queueSize {t : Tracked} {uuids : List Uuid} (h : Counted t uuids)
    (source : Source) : queueSize t.client source = some uuids.length := by
  obtain ⟨cache, hcache, hlisted⟩ := h.listed
  exact queueSize_of_listed hcache hlisted source

/-- Losing an entry does not touch the list. -/
theorem listed_erase {c : Client} {cache : KeyValueCache} {uuids : List Uuid}
    (h : Listed (uuidListKey c) cache uuids) (u : Uuid) :
    Listed (uuidListKey c) (cache.erase u.text) uuids := by
  constructor
  · rw [SortedMap.find_erase, if_neg (Ne.symm (uuid_ne_listKey u c))]
    exact h.list
  · intro v hv entry hentry
    rw [SortedMap.find_erase] at hentry
    split at hentry
    · cases hentry
    · exact h.requests v hv entry hentry

/-- The entry that a turn of `Flush` pops is in the cache and is read there. -/
def Readable (t : Tracked) : Event → Prop
  | .flush _ _ entrySource =>
    ∀ cache ∈ t.client.cache, ∀ entry uuidList publishDataKey rest,
      cache.find (uuidListKey t.client) = some entry → entry.value = .text uuidList →
        uuidList.span (· ≠ ',') = (publishDataKey, ',' :: rest) →
          entrySource.isSome = true ∧ (cache.find publishDataKey).isSome = true
  | _ => True

/-- What is read under the uuid that is popped. -/
theorem Counted.readable_iff {t : Tracked} {cache : KeyValueCache} {u : Uuid} {uuids : List Uuid}
    (hcache : t.client.cache = some cache)
    (h : Listed (uuidListKey t.client) cache (u :: uuids)) (codec : Codec)
    (sizeSource listSource : Source) (entrySource : Option Source) :
    Readable t (.flush sizeSource listSource entrySource) ↔
      (readRequest codec cache u entrySource).isSome = true := by
  have hfind : cache.find (uuidListKey t.client) = some (listEntry (u :: uuids)) := by
    rcases h.list with hfind | ⟨-, hnil⟩
    · exact hfind
    · cases hnil
  have hread : (entrySource.isSome = true ∧ (cache.find u.text).isSome = true) ↔
      (readRequest codec cache u entrySource).isSome = true := by
    unfold readRequest StreamLayerClientImpl.get
    cases entrySource with
    | none => simp
    | some source =>
      cases hentry : cache.find u.text with
      | none => simp
      | some entry =>
        obtain ⟨request, hrequest⟩ := h.requests u List.mem_cons_self entry hentry
        cases source with
        | object => simp [hrequest]
        | encoded => simp
  rw [← hread]
  constructor
  · intro hreadable
    exact hreadable cache hcache _ _ u.text _ hfind rfl (span_uuidText u uuids)
  · rintro hboth cache' hcache' entry uuidList publishDataKey rest hentry hvalue hspan
    rw [hcache] at hcache'
    cases hcache'
    rw [hfind] at hentry
    cases hentry
    cases hvalue
    rw [span_uuidText] at hspan
    cases hspan
    exact hboth

/-- Every event can happen in a state that lists its uuids. -/
theorem Counted.exists_step {t : Tracked} {uuids : List Uuid} (h : Counted t uuids)
    (codec : Codec) (event : Event) : ∃ t', step codec t event = some t' := by
  obtain ⟨cache, hcache, hlisted⟩ := h.listed
  cases event with
  | queue request u now sizeSource listSource =>
    have hrefusal := queueRefusal_of_listed hcache hlisted request sizeSource
    have happend := append_of_listed hcache hlisted codec request u listSource
    cases hcase : refusal t.client.maximumRequests request uuids.length with
    | some error =>
      exact ⟨t, by simp [step, hrefusal, hcase]⟩
    | none =>
      simp [step, hrefusal, hcase, handleNotifyQueueEventStart, h.interval_pos, happend]
  | flush sizeSource listSource entrySource =>
    have hsize := queueSize_of_listed hcache hlisted sizeSource
    cases uuids with
    | nil => exact ⟨t, by simp [step, hsize]⟩
    | cons u uuids =>
      have hpop := popFromQueue_of_listed_cons hcache hlisted codec listSource entrySource
      cases hread : readRequest codec cache u entrySource with
      | none => simp [step, hsize, hpop, hread]
      | some request => simp [step, hsize, hpop, hread]
  | lose u => simp [step, hcache]

/-- The timestamps are the times pushed for the requests in the queue. -/
def Matches (t : Tracked) : Prop := t.partitionTimestampQueue = t.pushedFor

/-- **One event** keeps the count, and keeps the timestamps right if and only if no entry that
it pops is missing. -/
theorem Counted.step {codec : Codec} {t t' : Tracked} {uuids : List Uuid} {event : Event}
    (h : Counted t uuids) (hstep : step codec t event = some t') :
    (∃ uuids', Counted t' uuids') ∧ (Matches t → (Matches t' ↔ Readable t event)) := by
  obtain ⟨cache, hcache, hlisted⟩ := h.listed
  have hpos := h.interval_pos
  cases event with
  | queue request u now sizeSource listSource =>
    have hrefusal := queueRefusal_of_listed hcache hlisted request sizeSource
    have happend := append_of_listed hcache hlisted codec request u listSource
    simp only [AutoFlushController.step, hrefusal, Option.bind_eq_bind, Option.bind_some] at hstep
    cases hcase : refusal t.client.maximumRequests request uuids.length with
    | some error =>
      rw [hcase] at hstep
      cases hstep
      exact ⟨⟨uuids, h⟩, fun hmatches => iff_of_true hmatches trivial⟩
    | none =>
      rw [hcase] at hstep
      simp only [handleNotifyQueueEventStart, if_pos hpos, happend, Option.bind_some] at hstep
      cases hstep
      refine ⟨⟨uuids ++ [u], hpos, ⟨_, rfl, hlisted.appended codec request u⟩, ?_⟩, ?_⟩
      · simp [h.length_eq]
      · intro hmatches
        refine iff_of_true ?_ trivial
        simp only [Matches, pushPartitionTimestamps, List.replicate_one]
        rw [hmatches]
  | flush sizeSource listSource entrySource =>
    cases uuids with
    | nil =>
      have hsize := queueSize_of_listed hcache hlisted sizeSource
      simp only [AutoFlushController.step, hsize, Option.bind_eq_bind, Option.bind_some,
        List.length_nil, lt_irrefl, if_false] at hstep
      cases hstep
      refine ⟨⟨[], h⟩, fun hmatches => iff_of_true hmatches ?_⟩
      -- there is no uuid to pop
      intro cache' hcache' entry uuidList publishDataKey rest hentry hvalue hspan
      rw [hcache] at hcache'
      cases hcache'
      rcases hlisted.list with hfind | ⟨hfind, -⟩
      · rw [hfind] at hentry
        cases hentry
        cases hvalue
        cases hspan
      · rw [hfind] at hentry
        cases hentry
    | cons u uuids =>
      have hsize := queueSize_of_listed hcache hlisted sizeSource
      have hpop := popFromQueue_of_listed_cons hcache hlisted codec listSource entrySource
      have hreadable := Counted.readable_iff hcache hlisted codec sizeSource listSource entrySource
      simp only [AutoFlushController.step, hsize, hpop, Option.bind_eq_bind, Option.bind_some,
        List.length_cons, Nat.zero_lt_succ, if_true] at hstep
      have hlength : t.pushedFor.tail.length = uuids.length := by
        rw [List.length_tail, h.length_eq, List.length_cons]
        omega
      cases hread : readRequest codec cache u entrySource with
      | none =>
        rw [hread] at hstep hreadable
        cases hstep
        refine ⟨⟨uuids, hpos, ⟨_, rfl, hlisted.popped⟩, hlength⟩, ?_⟩
        intro hmatches
        refine iff_of_false ?_ (by simp [hreadable])
        -- one time too many is left
        intro hmatches'
        have hbefore : t.partitionTimestampQueue.length = uuids.length + 1 := by
          rw [hmatches, h.length_eq, List.length_cons]
        have hafter : t.partitionTimestampQueue.length = t.pushedFor.tail.length :=
          congrArg List.length hmatches'
        omega
      | some request =>
        rw [hread] at hstep hreadable
        simp only [handleNotifyFlushEvent, if_pos hpos] at hstep
        cases hstep
        refine ⟨⟨uuids, hpos, ⟨_, rfl, hlisted.popped⟩, hlength⟩, ?_⟩
        intro hmatches
        refine iff_of_true ?_ (by simp [hreadable])
        simp only [Matches]
        rw [hmatches]
  | lose u =>
    simp only [AutoFlushController.step, hcache, Option.bind_eq_bind, Option.bind_some] at hstep
    cases hstep
    refine ⟨⟨uuids, hpos, ⟨_, rfl, listed_erase hlisted u⟩, h.length_eq⟩, ?_⟩
    exact fun hmatches => iff_of_true hmatches trivial

/-- **The timestamps match the queue exactly as long as every popped entry is read.** From a
client whose queue has any size, with auto-flush enabled: in every state of a run there is one
timestamp for each queued request, the one pushed for it, if and only if no turn of `Flush` in
the run pops an entry that is missing or cannot be read. -/
theorem timestamps_match_iff (codec : Codec) (client : Client) (cache : KeyValueCache)
    (uuids : List Uuid) (hcache : client.cache = some cache)
    (hlisted : Listed (uuidListKey client) cache uuids) (interval : ℤ) (hinterval : 0 < interval)
    (now : ℕ) (source : Source) (start : Tracked)
    (hstart : enable client interval now source = some start) (events : List Event) :
    (∀ before, before <+: events → ∀ t, runFrom (step codec) start before = some t →
        t.partitionTimestampQueue = t.pushedFor ∧
          ∀ source, queueSize t.client source = some t.partitionTimestampQueue.length) ↔
      Along (step codec) Readable start events := by
  have hbegin : Counted start uuids ∧ Matches start := by
    simp only [enable, queueSize_of_listed hcache hlisted source, Option.bind_eq_bind,
      Option.bind_some, if_pos hinterval] at hstart
    cases hstart
    refine ⟨⟨hinterval, ⟨cache, hcache, hlisted⟩, by simp⟩, ?_⟩
    simp [Matches, pushPartitionTimestamps]
  have hsizes : ∀ t, (∃ us, Counted t us) → (Matches t ↔
      t.partitionTimestampQueue = t.pushedFor ∧
        ∀ source, queueSize t.client source = some t.partitionTimestampQueue.length) := by
    rintro t ⟨us, hcounted⟩
    refine ⟨fun hmatches => ⟨hmatches, fun source => ?_⟩, fun hboth => hboth.1⟩
    rw [hcounted.queueSize source, ← hcounted.length_eq, ← hmatches]
  refine forall_before_iff_along (fun t => ∃ us, Counted t us) _ ?_ ?_ ?_ ⟨uuids, hbegin.1⟩
    ((hsizes start ⟨uuids, hbegin.1⟩).mp hbegin.2) events
  · rintro t event t' ⟨us, hcounted⟩ hstep
    exact (hcounted.step hstep).1
  · rintro t event t' ⟨us, hcounted⟩ hmatches hstep
    obtain ⟨hcounted', hiff⟩ := hcounted.step hstep
    rw [← hsizes t' hcounted']
    exact hiff hmatches.1
  · rintro t event ⟨us, hcounted⟩ hnone
    obtain ⟨t', hstep⟩ := hcounted.exists_step codec event
    rw [hnone] at hstep
    cases hstep

theorem timestamps_match_iff_one_request :
    ∃ t, (enable roomForOne 30 5 .object).bind (fun start => runFrom (step twoBytesCodec) start
        [.queue twoBytes firstUuid 7 .object .object]) = some t ∧
      t.partitionTimestampQueue = t.pushedFor ∧
        ∀ source, queueSize t.client source = some t.partitionTimestampQueue.length := by
  have hstart : enable roomForOne 30 5 .object = some ⟨roomForOne, 30, [], []⟩ := rfl
  rw [hstart, Option.bind_some]
  have hmatches := (timestamps_match_iff twoBytesCodec roomForOne SortedMap.empty [] rfl
    ⟨Or.inr ⟨rfl, rfl⟩, by simp⟩ 30 (by omega) 5 .object _ hstart
    [.queue twoBytes firstUuid 7 .object .object]).mpr ⟨trivial, fun _ _ => trivial⟩
  exact ⟨_, rfl, hmatches _ List.prefix_rfl _ rfl⟩

/-- A request is queued, its entry is lost, and a flush pops it: its time stays. -/
theorem timestamps_outlive_request :
    ∃ t, (enable roomForOne 30 5 .object).bind (fun start =>
        runFrom (step twoBytesCodec) start
          [.queue twoBytes firstUuid 7 .object .object, .lose firstUuid,
            .flush .object .object (some .object)]) = some t ∧
      queueSize t.client .object = some 0 ∧ t.partitionTimestampQueue = [7] := by
  have hrun : ((enable roomForOne 30 5 .object).bind (fun start =>
      runFrom (step twoBytesCodec) start
        [.queue twoBytes firstUuid 7 .object .object, .lose firstUuid,
          .flush .object .object (some .object)])).bind
        (fun t => some (queueSize t.client .object, t.partitionTimestampQueue)) =
      some (some 0, [7]) := by
    decide +kernel
  obtain ⟨t, ht, hboth⟩ := Option.bind_eq_some_iff.mp hrun
  obtain ⟨hsize, htimes⟩ := Prod.mk.inj (Option.some.inj hboth)
  exact ⟨t, ht, hsize, htimes⟩

end OlpEdgeSdk.Analysis.OldestEvents

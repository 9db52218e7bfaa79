import OlpEdgeSdk.Analysis.StreamQueueRuns
import OlpEdgeSdk.Model.StreamLayerFlush

/-!
# Cancelling a flush

Until its thread notices that it was cancelled, a flush takes the requests off the queue one
after another and has a response for each of them, but for the one in its hand. What it does
when it notices decides: it gives that request to `Queue`, which puts it behind the others, or
refuses it.
-/

set_option autoImplicit false

namespace OlpEdgeSdk.Analysis.FlushRuns

open OlpEdgeSdk.Base OlpEdgeSdk.Interface OlpEdgeSdk.Model StreamLayerClientImpl StreamQueue

/-! ## What a flush should leave -/

/-- No request of the start is lost: it is in the queue or has a response. None that succeeded
is in the queue. One that has no response, or was cancelled, is in the queue. Those in the
queue are in their order. -/
structure Kept (n : ℕ) (f : Flush) : Prop where
  notLost : ∀ i < n, i ∈ f.tags ∨ ∃ outcome, (i, outcome) ∈ f.response
  notRepublished : ∀ i, (i, PublishOutcome.succeeded) ∈ f.response → i ∉ f.tags
  queuedAgain : ∀ i < n, (∀ outcome, (i, outcome) ∉ f.response) ∨
    (i, PublishOutcome.cancelled) ∈ f.response → i ∈ f.tags
  ordered : f.tags.Pairwise (· < ·)

/-- Where the thread notices that it was cancelled: if `Queue` takes the request back, it was
the last of the queue and did not succeed; if `Queue` refuses it, its publish ran and was not
cancelled. -/
def NoticedWell (f : Flush) : FlushEvent → Prop
  | .check _ sizeSource _ =>
    match f.phase with
    | .answered _ request outcome =>
      f.isCancelled = true →
        (queueRefusal f.client request sizeSource = some none →
          queueSize f.client sizeSource = some 0 ∧ outcome ≠ some .succeeded) ∧
        (queueRefusal f.client request sizeSource ≠ some none →
          outcome ≠ none ∧ outcome ≠ some .cancelled)
    | _ => True
  | _ => True

/-- The uuid that is generated is no key of the cache. -/
def FreshUuid (f : Flush) : FlushEvent → Prop
  | .check publishDataKey _ _ => ∀ cache ∈ f.client.cache, cache.find publishDataKey.text = none
  | _ => True

instance decidableFreshUuid (f : Flush) : ∀ event, Decidable (FreshUuid f event)
  | .check publishDataKey _ _ =>
    inferInstanceAs (Decidable (∀ cache ∈ f.client.cache, cache.find publishDataKey.text = none))
  | .turn _ _ _ | .execute | .respond _ | .cancel => isTrue trivial

/-! ## The progress of a flush -/

/-- The responses are those of the first `k` requests, and none of them was cancelled. -/
structure Answered (k : ℕ) (response : List (ℕ × PublishOutcome)) : Prop where
  tags_eq : response.map Prod.fst = List.range k
  notCancelled : ∀ p ∈ response, p.2 ≠ .cancelled

theorem Answered.mem_iff {k : ℕ} {response : List (ℕ × PublishOutcome)} (h : Answered k response)
    {i : ℕ} : (∃ outcome, (i, outcome) ∈ response) ↔ i < k := by
  rw [← List.mem_range, ← h.tags_eq, List.mem_map]
  constructor
  · rintro ⟨outcome, hmem⟩
    exact ⟨(i, outcome), hmem, rfl⟩
  · rintro ⟨⟨_, outcome⟩, hmem, rfl⟩
    exact ⟨outcome, hmem⟩

theorem Answered.lt {k i : ℕ} {response : List (ℕ × PublishOutcome)} (h : Answered k response)
    {outcome : PublishOutcome} (hmem : (i, outcome) ∈ response) : i < k :=
  h.mem_iff.mp ⟨outcome, hmem⟩

theorem Answered.concat {k : ℕ} {response : List (ℕ × PublishOutcome)} (h : Answered k response)
    {outcome : PublishOutcome} (hne : outcome ≠ .cancelled) :
    Answered (k + 1) (response ++ [(k, outcome)]) where
  tags_eq := by rw [List.map_append, h.tags_eq, List.range_succ]; rfl
  notCancelled := by
    intro p hp
    rcases List.mem_append.mp hp with hp | hp
    · exact h.notCancelled p hp
    · rw [List.mem_singleton.mp hp]
      exact hne

/-- The requests from the `k`-th on. -/
def tagsFrom (k n : ℕ) : List ℕ := List.range' k (n - k)

theorem mem_tagsFrom {k n i : ℕ} : i ∈ tagsFrom k n ↔ k ≤ i ∧ i < n := by
  rw [tagsFrom, List.mem_range'_1]
  omega

theorem tagsFrom_eq_nil_iff {k n : ℕ} : tagsFrom k n = [] ↔ n ≤ k := by
  rw [tagsFrom, List.range'_eq_nil_iff]
  omega

theorem tagsFrom_eq_cons {k n : ℕ} (h : k < n) : tagsFrom k n = k :: tagsFrom (k + 1) n := by
  rw [tagsFrom, show n - k = n - (k + 1) + 1 by omega, List.range'_succ, tagsFrom]

/-- Where the thread is in the list of the requests. -/
def Placed (n : ℕ) (f : Flush) : Prop :=
  match f.phase with
  | .looping => ∃ k ≤ n, f.tags = tagsFrom k n ∧ Answered k f.response
  | .popped tag _ | .publishing tag _ =>
    tag < n ∧ f.tags = tagsFrom (tag + 1) n ∧ Answered tag f.response
  | .answered tag _ none =>
    tag < n ∧ f.tags = tagsFrom (tag + 1) n ∧ Answered tag f.response ∧ f.isCancelled = true
  | .answered tag _ (some outcome) =>
    tag < n ∧ f.tags = tagsFrom (tag + 1) n ∧
      (∃ earlier, f.response = earlier ++ [(tag, outcome)] ∧ Answered tag earlier) ∧
      (outcome = .cancelled → f.isCancelled = true)
  | .finished => True

/-- **A flush that ends without noticing a cancel** leaves what it should. -/
theorem kept_of_tagsFrom {k n : ℕ} {f : Flush} (htags : f.tags = tagsFrom k n)
    (hanswered : Answered k f.response) : Kept n f where
  notLost := by
    intro i hi
    by_cases hk : i < k
    · exact Or.inr (hanswered.mem_iff.mpr hk)
    · rw [htags, mem_tagsFrom]
      exact Or.inl ⟨by omega, hi⟩
  notRepublished := by
    intro i hmem
    have := hanswered.lt hmem
    rw [htags, mem_tagsFrom]
    omega
  queuedAgain := by
    rintro i hi (hnone | hcancelled)
    · rw [htags, mem_tagsFrom]
      refine ⟨?_, hi⟩
      by_contra hlt
      obtain ⟨outcome, hmem⟩ := hanswered.mem_iff.mpr (show i < k by omega)
      exact hnone outcome hmem
    · exact absurd rfl (hanswered.notCancelled _ hcancelled)
  ordered := by
    rw [htags, tagsFrom]
    exact List.pairwise_lt_range'

/-- **A request taken back** is behind the others: that is as it should be if there are none,
and if the request did not succeed. -/
theorem kept_of_taken_back {tag n : ℕ} {f : Flush} (htag : tag < n)
    {outcome : Option PublishOutcome} {earlier : List (ℕ × PublishOutcome)}
    (htags : f.tags = tagsFrom (tag + 1) n ++ [tag])
    (hresponse : f.response = earlier ++ (outcome.map fun o => (tag, o)).toList)
    (hanswered : Answered tag earlier) :
    Kept n f ↔ tagsFrom (tag + 1) n = [] ∧ outcome ≠ some .succeeded := by
  constructor
  · intro h
    refine ⟨?_, ?_⟩
    · have hordered := h.ordered
      rw [htags, List.pairwise_append] at hordered
      rw [List.eq_nil_iff_forall_not_mem]
      intro i hi
      have hlt := hordered.2.2 i hi tag (List.mem_singleton_self tag)
      rw [mem_tagsFrom] at hi
      omega
    · rintro rfl
      refine h.notRepublished tag ?_ ?_
      · rw [hresponse]
        simp
      · rw [htags]
        simp
  · rintro ⟨hnil, hsucceeded⟩
    rw [hnil, List.nil_append] at htags
    have hlast : n = tag + 1 := by
      have := tagsFrom_eq_nil_iff.mp hnil
      omega
    have hmem : ∀ i o, (i, o) ∈ f.response ↔ (i, o) ∈ earlier ∨ (i = tag ∧ outcome = some o) := by
      intro i o
      rw [hresponse, List.mem_append]
      cases outcome <;> simp [eq_comm]
    refine ⟨?_, ?_, ?_, by simp [htags]⟩
    · intro i hi
      by_cases hit : i < tag
      · obtain ⟨o, ho⟩ := hanswered.mem_iff.mpr hit
        exact Or.inr ⟨o, (hmem i o).mpr (Or.inl ho)⟩
      · rw [htags, List.mem_singleton]
        exact Or.inl (by omega)
    · intro i hi
      rw [htags, List.mem_singleton]
      rcases (hmem i _).mp hi with hearlier | ⟨-, ho⟩
      · have := hanswered.lt hearlier
        omega
      · exact absurd ho hsucceeded
    · rintro i hi hcase
      rw [htags, List.mem_singleton]
      by_contra hne
      obtain ⟨o, ho⟩ := hanswered.mem_iff.mpr (show i < tag by omega)
      rcases hcase with hnone | hcancelled
      · exact hnone o ((hmem i o).mpr (Or.inl ho))
      · rcases (hmem i _).mp hcancelled with hearlier | ⟨heq, -⟩
        · exact hanswered.notCancelled _ hearlier rfl
        · exact hne heq

/-- **A request refused** is gone: that is as it should be if its publish ran to its end. -/
theorem kept_of_refused {tag n : ℕ} {f : Flush} (htag : tag < n)
    {outcome : Option PublishOutcome} {earlier : List (ℕ × PublishOutcome)}
    (htags : f.tags = tagsFrom (tag + 1) n)
    (hresponse : f.response = earlier ++ (outcome.map fun o => (tag, o)).toList)
    (hanswered : Answered tag earlier) :
    Kept n f ↔ outcome ≠ none ∧ outcome ≠ some .cancelled := by
  have hgone : tag ∉ f.tags := by
    rw [htags, mem_tagsFrom]
    omega
  constructor
  · intro h
    refine ⟨?_, ?_⟩
    · rintro rfl
      refine hgone (h.queuedAgain tag htag (Or.inl fun o ho => ?_))
      rw [hresponse] at ho
      have := hanswered.lt (by simpa using ho)
      omega
    · rintro rfl
      refine hgone (h.queuedAgain tag htag (Or.inr ?_))
      rw [hresponse]
      simp
  · rintro ⟨hran, hcancelled⟩
    obtain ⟨o, rfl⟩ := Option.ne_none_iff_exists'.mp hran
    have ho : o ≠ .cancelled := fun heq => hcancelled (by rw [heq])
    exact kept_of_tagsFrom htags (by rw [hresponse]; exact hanswered.concat ho)

/-! ## One step -/

/-- The request that the thread has popped and is not done with. -/
def inHand : FlushPhase → Option (ℕ × PublishDataRequest)
  | .popped tag request | .publishing tag request | .answered tag request _ => some (tag, request)
  | .looping | .finished => none

variable {codec : Codec} {key : List Char} {others : KeyValueCache}
  {start : List PublishDataRequest}

/-- The cache holds the requests that the tags name, and the request in hand is the one that its
tag names; all of them can be read back from their texts. -/
structure Linked (codec : Codec) (key : List Char) (others : KeyValueCache)
    (start : List PublishDataRequest) (f : Flush) : Prop where
  key_eq : uuidListKey f.client = key
  holds : ∃ cache pending, f.client.cache = some cache ∧ Holds codec key others cache pending ∧
    (pending.map fun q => some q.request) = (f.tags.map fun i => start[i]?) ∧
    ∀ q ∈ pending, codec.parse (codec.serialize q.request) = q.request
  hand : ∀ tag request, inHand f.phase = some (tag, request) →
    start[tag]? = some request ∧ codec.parse (codec.serialize request) = request

theorem Linked.queueSize {f : Flush} (h : Linked codec key others start f) (source : Source) :
    queueSize f.client source = some f.tags.length := by
  obtain ⟨cache, pending, hcache, hholds, hrequests, -⟩ := h.holds
  have hlisted := hholds.listed
  rw [← h.key_eq] at hlisted
  rw [queueSize_of_listed hcache hlisted source]
  have hlength := congrArg List.length hrequests
  simp only [List.length_map] at hlength ⊢
  rw [hlength]

theorem Linked.queueRefusal {f : Flush} (h : Linked codec key others start f)
    (request : PublishDataRequest) (source : Source) :
    queueRefusal f.client request source =
      some (refusal f.client.maximumRequests request f.tags.length) := by
  obtain ⟨cache, pending, hcache, hholds, hrequests, -⟩ := h.holds
  have hlisted := hholds.listed
  rw [← h.key_eq] at hlisted
  rw [queueRefusal_of_listed hcache hlisted request source]
  have hlength := congrArg List.length hrequests
  simp only [List.length_map] at hlength ⊢
  rw [hlength]

/-- What a step does to a flush that has not finished: it goes on as it should; if it ends the
flush, it does so well exactly if a cancel was noticed well; and with a new uuid the tags still
name what is in the cache. -/
structure StepOf (codec : Codec) (key : List Char) (others : KeyValueCache)
    (start : List PublishDataRequest) (f : Flush) (event : FlushEvent) (f' : Flush) : Prop where
  progress : f'.phase ≠ .finished → Linked codec key others start f' ∧ Placed start.length f'
  good : (f'.phase = .finished → Kept start.length f') ↔ NoticedWell f event
  linked : FreshUuid f event → Linked codec key others start f'

theorem StepOf.of_goesOn {f f' : Flush} {event : FlushEvent}
    (hlinked : Linked codec key others start f') (hplaced : Placed start.length f')
    (hphase : f'.phase ≠ .finished) (hnoticed : NoticedWell f event) :
    StepOf codec key others start f event f' where
  progress _ := ⟨hlinked, hplaced⟩
  good := iff_of_true (fun heq => absurd heq hphase) hnoticed
  linked _ := hlinked

/-- **A turn of the loop** pops the next request, or ends the flush. -/
theorem stepOf_turn {f f' : Flush} {sizeSource listSource entrySource : Source}
    (hlinked : Linked codec key others start f) (hplaced : Placed start.length f)
    (hstep : flushStep codec f (.turn sizeSource listSource entrySource) = some f') :
    StepOf codec key others start f (.turn sizeSource listSource entrySource) f' := by
  cases hphase : f.phase with
  | looping =>
    simp only [Placed, hphase] at hplaced
    obtain ⟨k, hk, htags, hanswered⟩ := hplaced
    simp only [flushStep, hphase, hlinked.queueSize sizeSource, Option.bind_eq_bind,
      Option.bind_some] at hstep
    by_cases hgo : (∀ maximum ∈ f.eventsPerSingleFlush, f.counter < maximum) ∧ 0 < f.tags.length
    · rw [if_pos hgo] at hstep
      obtain ⟨cache, pending, hcache, hholds, hrequests, hcodec⟩ := hlinked.holds
      have hkn : k < start.length := by
        by_contra hnot
        rw [htags, tagsFrom_eq_nil_iff.mpr (by omega)] at hgo
        exact absurd hgo.2 (by simp)
      rw [tagsFrom_eq_cons hkn] at htags
      cases pending with
      | nil =>
        rw [htags] at hrequests
        cases hrequests
      | cons q pending =>
        have hlisted := hholds.listed
        rw [← hlinked.key_eq] at hlisted
        have hpop := popFromQueue_of_listed_cons hcache hlisted codec listSource (some entrySource)
        rw [hholds.readRequest_head (hcodec q List.mem_cons_self)] at hpop
        simp only [hpop, Option.bind_some] at hstep
        cases hstep
        rw [htags, List.map_cons, List.map_cons, List.cons.injEq] at hrequests
        have hpopped := hholds
        rw [← hlinked.key_eq] at hpopped
        refine .of_goesOn ⟨hlinked.key_eq, ⟨_, pending, rfl, ?_, ?_, ?_⟩, ?_⟩ ?_ (by simp) trivial
        · rw [← hlinked.key_eq]
          exact hpopped.popped
        · rw [htags]
          exact hrequests.2
        · exact fun q' hq' => hcodec q' (List.mem_cons_of_mem _ hq')
        · intro tag request hhand
          rw [htags] at hhand
          cases hhand
          exact ⟨hrequests.1.symm, hcodec q List.mem_cons_self⟩
        · simp only [Placed, htags]
          exact ⟨hkn, rfl, hanswered⟩
    · rw [if_neg hgo] at hstep
      cases hstep
      refine ⟨fun hne => absurd rfl hne, iff_of_true (fun _ => ?_) trivial, fun _ => ?_⟩
      · exact kept_of_tagsFrom htags hanswered
      · exact ⟨hlinked.key_eq, hlinked.holds, fun tag request hhand => by cases hhand⟩
  | popped => simp [flushStep, hphase] at hstep
  | publishing => simp [flushStep, hphase] at hstep
  | answered => simp [flushStep, hphase] at hstep
  | finished => simp [flushStep, hphase] at hstep

/-- **`ExecuteOrCancelled`** starts the publish, or passes it over. -/
theorem stepOf_execute {f f' : Flush} (hlinked : Linked codec key others start f)
    (hplaced : Placed start.length f) (hstep : flushStep codec f .execute = some f') :
    StepOf codec key others start f .execute f' := by
  cases hphase : f.phase with
  | popped tag request =>
    simp only [Placed, hphase] at hplaced
    obtain ⟨htag, htags, hanswered⟩ := hplaced
    have hhand := hlinked.hand tag request (by rw [hphase]; rfl)
    simp only [flushStep, hphase] at hstep
    split at hstep
    · next hcancelled =>
      cases hstep
      refine .of_goesOn ⟨hlinked.key_eq, hlinked.holds, ?_⟩ ?_ (by simp) trivial
      · rintro _ _ ⟨⟩
        exact hhand
      · simp only [Placed]
        exact ⟨htag, htags, hanswered, hcancelled⟩
    · cases hstep
      refine .of_goesOn ⟨hlinked.key_eq, hlinked.holds, ?_⟩ ?_ (by simp) trivial
      · rintro _ _ ⟨⟩
        exact hhand
      · simp only [Placed]
        exact ⟨htag, htags, hanswered⟩
  | looping => simp [flushStep, hphase] at hstep
  | publishing => simp [flushStep, hphase] at hstep
  | answered => simp [flushStep, hphase] at hstep
  | finished => simp [flushStep, hphase] at hstep

/-- **The response** of the publish. -/
theorem stepOf_respond {f f' : Flush} {outcome : PublishOutcome}
    (hlinked : Linked codec key others start f) (hplaced : Placed start.length f)
    (hstep : flushStep codec f (.respond outcome) = some f') :
    StepOf codec key others start f (.respond outcome) f' := by
  cases hphase : f.phase with
  | publishing tag request =>
    simp only [Placed, hphase] at hplaced
    obtain ⟨htag, htags, hanswered⟩ := hplaced
    have hhand := hlinked.hand tag request (by rw [hphase]; rfl)
    simp only [flushStep, hphase] at hstep
    split at hstep
    · cases hstep
    · next hcancelled =>
      cases hstep
      refine .of_goesOn ⟨hlinked.key_eq, hlinked.holds, ?_⟩ ?_ (by simp) trivial
      · rintro _ _ ⟨⟩
        exact hhand
      · simp only [Placed]
        refine ⟨htag, htags, ⟨f.response, rfl, hanswered⟩, fun heq => ?_⟩
        by_contra hnot
        exact hcancelled ⟨heq, by simpa using hnot⟩
  | looping => simp [flushStep, hphase] at hstep
  | popped => simp [flushStep, hphase] at hstep
  | answered => simp [flushStep, hphase] at hstep
  | finished => simp [flushStep, hphase] at hstep

/-- The responses before the one of the request in hand. -/
theorem Placed.earlier {n : ℕ} {f : Flush} {tag : ℕ} {request : PublishDataRequest}
    {outcome : Option PublishOutcome} (h : Placed n f)
    (hphase : f.phase = .answered tag request outcome) :
    tag < n ∧ f.tags = tagsFrom (tag + 1) n ∧
      ∃ earlier, f.response = earlier ++ (outcome.map fun o => (tag, o)).toList ∧
        Answered tag earlier := by
  cases outcome with
  | none =>
    simp only [Placed, hphase] at h
    exact ⟨h.1, h.2.1, f.response, by simp, h.2.2.1⟩
  | some outcome =>
    simp only [Placed, hphase] at h
    exact ⟨h.1, h.2.1, h.2.2.1⟩

/-- **The look at the cancel flag**: without one the loop goes on; with one the request is given
to `Queue`, and the flush ends. -/
theorem stepOf_check {f f' : Flush} {u : Uuid} {sizeSource listSource : Source}
    (hlinked : Linked codec key others start f) (hplaced : Placed start.length f)
    (hstep : flushStep codec f (.check u sizeSource listSource) = some f') :
    StepOf codec key others start f (.check u sizeSource listSource) f' := by
  cases hphase : f.phase with
  | answered tag request outcome =>
    obtain ⟨htag, htags, earlier, hresponse, hanswered⟩ := hplaced.earlier hphase
    have hhand := hlinked.hand tag request (by rw [hphase]; rfl)
    have hrefusal := hlinked.queueRefusal request sizeSource
    have hsize := hlinked.queueSize sizeSource
    cases hcancelled : f.isCancelled with
    | false =>
      simp only [flushStep, hphase, hcancelled, Bool.false_eq_true, if_false] at hstep
      cases hstep
      refine .of_goesOn ⟨hlinked.key_eq, hlinked.holds, fun _ _ hhand => by cases hhand⟩ ?_
        (by simp) (by simp [NoticedWell, hphase, hcancelled])
      simp only [Placed]
      refine ⟨tag + 1, htag, htags, ?_⟩
      cases outcome with
      | none =>
        simp only [Placed, hphase, hcancelled] at hplaced
        exact absurd hplaced.2.2.2 (by simp)
      | some outcome =>
        simp only [Placed, hphase, hcancelled] at hplaced
        rw [hresponse]
        exact hanswered.concat fun heq => absurd (hplaced.2.2.2 heq) (by simp)
    | true =>
      obtain ⟨cache, pending, hcache, hholds, hrequests, hcodec⟩ := hlinked.holds
      simp only [flushStep, hphase, hcancelled, if_true, queue, hrefusal, Option.bind_eq_bind,
        Option.bind_some] at hstep
      cases hcase : refusal f.client.maximumRequests request f.tags.length with
      | some error =>
        rw [hcase] at hrefusal hstep
        cases hstep
        refine ⟨fun hne => absurd rfl hne, ?_, fun _ => ?_⟩
        · have hkept := kept_of_refused
            (f := { f with isCancelled := true, phase := .finished }) htag htags hresponse hanswered
          simp only [NoticedWell, hphase, hcancelled, hrefusal]
          simpa using hkept
        · exact ⟨hlinked.key_eq, ⟨cache, pending, hcache, hholds, hrequests, hcodec⟩,
            fun _ _ hhand => by cases hhand⟩
      | none =>
        have hlisted := hholds.listed
        rw [← hlinked.key_eq] at hlisted
        have happend := append_of_listed hcache hlisted codec request u listSource
        rw [hcase] at hrefusal hstep
        simp only [happend, Option.bind_some] at hstep
        cases hstep
        refine ⟨fun hne => absurd rfl hne, ?_, fun hfresh => ?_⟩
        · have hkept := kept_of_taken_back (f := { f with
            client := { f.client with
              cache := some (appendedCache codec (uuidListKey f.client) cache
                (pending.map Queued.uuid) request u) },
            isCancelled := true, phase := .finished, tags := f.tags ++ [tag] })
            htag (by rw [htags]) hresponse hanswered
          have hempty : queueSize f.client sizeSource = some 0 ↔
              tagsFrom (tag + 1) start.length = [] := by
            rw [hsize, Option.some.injEq, List.length_eq_zero_iff, htags]
          simp only [NoticedWell, hphase, hcancelled, hrefusal, hempty]
          simpa using hkept
        · have hnew := hholds
          rw [← hlinked.key_eq] at hnew
          refine ⟨hlinked.key_eq, ⟨_, pending ++ [⟨u, request⟩], rfl, ?_, ?_, ?_⟩,
            fun _ _ hhand => by cases hhand⟩
          · rw [← hlinked.key_eq]
            exact hnew.appended request (hfresh cache hcache)
          · simp [hrequests, hhand.1]
          · intro q hq
            rcases List.mem_append.mp hq with hq | hq
            · exact hcodec q hq
            · rw [List.mem_singleton.mp hq]
              exact hhand.2
  | looping => simp [flushStep, hphase] at hstep
  | popped => simp [flushStep, hphase] at hstep
  | publishing => simp [flushStep, hphase] at hstep
  | finished => simp [flushStep, hphase] at hstep

/-- **The cancellation of the token** sets the flag and nothing else. -/
theorem stepOf_cancel {f f' : Flush} (hlinked : Linked codec key others start f)
    (hplaced : Placed start.length f) (hphase : f.phase ≠ .finished)
    (hstep : flushStep codec f .cancel = some f') :
    StepOf codec key others start f .cancel f' := by
  cases hstep
  refine .of_goesOn ⟨hlinked.key_eq, hlinked.holds, hlinked.hand⟩ ?_ hphase trivial
  cases hcase : f.phase with
  | looping =>
    simp only [Placed, hcase] at hplaced ⊢
    exact hplaced
  | popped tag request =>
    simp only [Placed, hcase] at hplaced ⊢
    exact hplaced
  | publishing tag request =>
    simp only [Placed, hcase] at hplaced ⊢
    exact hplaced
  | answered tag request outcome =>
    cases outcome with
    | none =>
      simp only [Placed, hcase] at hplaced ⊢
      exact ⟨hplaced.1, hplaced.2.1, hplaced.2.2.1, trivial⟩
    | some outcome =>
      simp only [Placed, hcase] at hplaced ⊢
      exact ⟨hplaced.1, hplaced.2.1, hplaced.2.2.1, fun _ => trivial⟩
  | finished => exact absurd hcase hphase

/-- **One step** of a flush that has not finished. -/
theorem stepOf_of_step {f f' : Flush} {event : FlushEvent}
    (hlinked : Linked codec key others start f) (hplaced : Placed start.length f)
    (hphase : f.phase ≠ .finished) (hstep : flushStep codec f event = some f') :
    StepOf codec key others start f event f' := by
  cases event with
  | turn sizeSource listSource entrySource => exact stepOf_turn hlinked hplaced hstep
  | execute => exact stepOf_execute hlinked hplaced hstep
  | respond outcome => exact stepOf_respond hlinked hplaced hstep
  | check u sizeSource listSource => exact stepOf_check hlinked hplaced hstep
  | cancel => exact stepOf_cancel hlinked hplaced hphase hstep

/-- A flush that has finished can still be cancelled, to no effect. -/
theorem step_of_finished {f f' : Flush} {event : FlushEvent} (hphase : f.phase = .finished)
    (hstep : flushStep codec f event = some f') :
    event = .cancel ∧ f' = { f with isCancelled := true } := by
  cases event with
  | cancel =>
    cases hstep
    exact ⟨rfl, rfl⟩
  | turn sizeSource listSource entrySource => simp [flushStep, hphase] at hstep
  | execute => simp [flushStep, hphase] at hstep
  | respond outcome => simp [flushStep, hphase] at hstep
  | check u sizeSource listSource => simp [flushStep, hphase] at hstep

theorem kept_isCancelled_iff {n : ℕ} {f : Flush} (b : Bool) :
    Kept n { f with isCancelled := b } ↔ Kept n f :=
  ⟨fun h => ⟨h.notLost, h.notRepublished, h.queuedAgain, h.ordered⟩,
    fun h => ⟨h.notLost, h.notRepublished, h.queuedAgain, h.ordered⟩⟩

/-! ## Whole flushes -/

theorem linked_start {c : Client} {cache : KeyValueCache} {pending : List Queued}
    (hcache : c.cache = some cache) (hholds : Holds codec (uuidListKey c) others cache pending)
    (hcodec : ∀ q ∈ pending, codec.parse (codec.serialize q.request) = q.request)
    (eventsPerSingleFlush : Option ℤ) :
    Linked codec (uuidListKey c) others (pending.map Queued.request)
      (Flush.start c eventsPerSingleFlush pending.length) where
  key_eq := rfl
  holds := by
    refine ⟨cache, pending, hcache, hholds, ?_, hcodec⟩
    apply List.ext_getElem?
    intro i
    by_cases hi : i < pending.length
    · simp [Flush.start, hi]
    · simp [Flush.start, hi]
  hand tag request hhand := nomatch hhand

theorem placed_start (c : Client) (eventsPerSingleFlush : Option ℤ) (n : ℕ) :
    Placed n (Flush.start c eventsPerSingleFlush n) := by
  refine ⟨0, Nat.zero_le n, ?_, rfl, by simp [Flush.start]⟩
  rw [tagsFrom, Nat.sub_zero]
  exact List.range_eq_range'

/-- A flush that goes on is where it should be. -/
def GoesOn (codec : Codec) (key : List Char) (others : KeyValueCache)
    (start : List PublishDataRequest) (f : Flush) : Prop :=
  f.phase ≠ .finished → Linked codec key others start f ∧ Placed start.length f

theorem GoesOn.step {f f' : Flush} {event : FlushEvent} (h : GoesOn codec key others start f)
    (hstep : flushStep codec f event = some f') : GoesOn codec key others start f' := by
  by_cases hphase : f.phase = .finished
  · obtain ⟨-, rfl⟩ := step_of_finished hphase hstep
    exact fun hne => absurd hphase hne
  · obtain ⟨hlinked, hplaced⟩ := h hphase
    exact (stepOf_of_step hlinked hplaced hphase hstep).progress

/-- **A flush keeps what it should exactly if it notices a cancel well.** For every queue and
every limit, whichever way the publishes end and whenever the token is cancelled: when the flush
has finished, the cache holds the requests that its tags name, and none of them is lost,
published again, left out or out of order if and only if the cancel was noticed well. -/
theorem flush_kept_iff (codec : Codec) (c : Client) (others cache : KeyValueCache)
    (pending : List Queued) (hcache : c.cache = some cache)
    (hholds : Holds codec (uuidListKey c) others cache pending)
    (hcodec : ∀ q ∈ pending, codec.parse (codec.serialize q.request) = q.request)
    (eventsPerSingleFlush : Option ℤ) (events : List FlushEvent)
    (hfresh : Along (flushStep codec) FreshUuid
      (Flush.start c eventsPerSingleFlush pending.length) events)
    (f : Flush)
    (hrun : runFrom (flushStep codec) (Flush.start c eventsPerSingleFlush pending.length) events =
      some f)
    (hfinished : f.phase = .finished) :
    (∃ cache' left, f.client.cache = some cache' ∧
      Holds codec (uuidListKey c) others cache' left ∧
      left.map (fun q => some q.request) = f.tags.map fun i => pending[i]?.map Queued.request) ∧
    (Kept pending.length f ↔ Along (flushStep codec) NoticedWell
      (Flush.start c eventsPerSingleFlush pending.length) events) := by
  have hlinked := linked_start hcache hholds hcodec eventsPerSingleFlush
  have hplaced : Placed (pending.map Queued.request).length
      (Flush.start c eventsPerSingleFlush pending.length) := by
    rw [List.length_map]
    exact placed_start c eventsPerSingleFlush pending.length
  constructor
  · have hend := invariant_along
      (fun f => Linked codec (uuidListKey c) others (pending.map Queued.request) f ∧
        GoesOn codec (uuidListKey c) others (pending.map Queued.request) f)
      (by
        rintro g event g' ⟨hlinked, hgoesOn⟩ hnew hstep
        refine ⟨?_, hgoesOn.step hstep⟩
        by_cases hphase : g.phase = .finished
        · obtain ⟨-, rfl⟩ := step_of_finished hphase hstep
          exact ⟨hlinked.key_eq, hlinked.holds, hlinked.hand⟩
        · exact (stepOf_of_step hlinked (hgoesOn hphase).2 hphase hstep).linked hnew)
      hrun hfresh ⟨hlinked, fun _ => ⟨hlinked, hplaced⟩⟩
    obtain ⟨cache', left, hcache', hholds', hrequests, -⟩ := hend.1.holds
    refine ⟨cache', left, hcache', hholds', ?_⟩
    simpa only [List.getElem?_map] using hrequests
  · have hgood := good_iff_along
      (GoesOn codec (uuidListKey c) others (pending.map Queued.request))
      (fun f => f.phase = .finished → Kept (pending.map Queued.request).length f)
      (P := NoticedWell)
      (fun g event g' hgoesOn hstep => hgoesOn.step hstep)
      (by
        intro g event g' hgoesOn hkept hstep
        by_cases hphase : g.phase = .finished
        · obtain ⟨rfl, rfl⟩ := step_of_finished hphase hstep
          exact iff_of_true (fun _ => (kept_isCancelled_iff true).mpr (hkept hphase)) trivial
        · obtain ⟨hlinked, hplaced⟩ := hgoesOn hphase
          exact (stepOf_of_step hlinked hplaced hphase hstep).good)
      (by
        intro g event g' hgoesOn hlost hstep hkept
        apply hlost
        intro hphase
        obtain ⟨-, rfl⟩ := step_of_finished hphase hstep
        exact (kept_isCancelled_iff true).mp (hkept hphase))
      hrun (fun _ => ⟨hlinked, hplaced⟩) (fun hphase => nomatch hphase)
    rw [← hgood, List.length_map]
    exact ⟨fun h _ => h, fun h => h hfinished⟩

/-- A cache whose queue holds one request. -/
def oneQueued : KeyValueCache :=
  appendedCache twoBytesCodec (uuidListKey roomForOne) SortedMap.empty [] twoBytes firstUuid

theorem holds_oneQueued :
    Holds twoBytesCodec (uuidListKey roomForOne) SortedMap.empty oneQueued
      [⟨firstUuid, twoBytes⟩] :=
  (holds_nil twoBytesCodec rfl).appended twoBytes rfl

/-- A publish is cancelled while it is under way, and nothing else is queued. -/
theorem flush_kept_iff_one_request :
    ∃ f, runFrom (flushStep twoBytesCodec)
        (Flush.start { roomForOne with cache := oneQueued } none 1)
        [.turn .object .object .object, .execute, .cancel, .respond .cancelled,
          .check secondUuid .object .object] = some f ∧
      (Kept 1 f ↔ Along (flushStep twoBytesCodec) NoticedWell
        (Flush.start { roomForOne with cache := oneQueued } none 1)
        [.turn .object .object .object, .execute, .cancel, .respond .cancelled,
          .check secondUuid .object .object]) := by
  have hphase : (runFrom (flushStep twoBytesCodec)
      (Flush.start { roomForOne with cache := oneQueued } none 1)
      [.turn .object .object .object, .execute, .cancel, .respond .cancelled,
        .check secondUuid .object .object]).map Flush.phase = some .finished := by
    decide +kernel
  obtain ⟨f, hrun, hfinished⟩ := Option.map_eq_some_iff.mp hphase
  have hcodec : ∀ q ∈ [(⟨firstUuid, twoBytes⟩ : Queued)],
      twoBytesCodec.parse (twoBytesCodec.serialize q.request) = q.request := by
    intro q hq
    rw [List.mem_singleton.mp hq]
    rfl
  refine ⟨f, hrun, ?_⟩
  exact (flush_kept_iff twoBytesCodec { roomForOne with cache := oneQueued } SortedMap.empty
    oneQueued [⟨firstUuid, twoBytes⟩] rfl holds_oneQueued hcodec none _
    (by decide +kernel) f hrun hfinished).2

/-- A cache whose queue holds two requests. -/
def twoQueued : KeyValueCache :=
  appendedCache twoBytesCodec (uuidListKey roomForOne) oneQueued [firstUuid] twoBytes secondUuid

/-- A flush of two requests, cancelled while the publish of the first succeeds: it ends with both
in the queue, the published one behind the other. -/
theorem flush_republishes :
    ∃ f, runFrom (flushStep twoBytesCodec)
        (Flush.start ⟨roomForOne.catalog, twoQueued, none⟩ none 2)
        [.turn .object .object .object, .execute, .cancel, .respond .succeeded,
          .check thirdUuid .object .object] = some f ∧
      f.phase = .finished ∧ (0, .succeeded) ∈ f.response ∧ f.tags = [1, 0] ∧ ¬ Kept 2 f := by
  have hend : (runFrom (flushStep twoBytesCodec)
      (Flush.start ⟨roomForOne.catalog, twoQueued, none⟩ none 2)
      [.turn .object .object .object, .execute, .cancel, .respond .succeeded,
        .check thirdUuid .object .object]).map (fun f => (f.phase, f.response, f.tags)) =
      some (.finished, [(0, .succeeded)], [1, 0]) := by
    decide +kernel
  obtain ⟨f, hrun, hf⟩ := Option.map_eq_some_iff.mp hend
  obtain ⟨hphase, hf⟩ := Prod.mk.inj hf
  obtain ⟨hresponse, htags⟩ := Prod.mk.inj hf
  refine ⟨f, hrun, hphase, by simp [hresponse], htags, fun hkept => ?_⟩
  exact hkept.notRepublished 0 (by simp [hresponse]) (by simp [htags])

end OlpEdgeSdk.Analysis.FlushRuns

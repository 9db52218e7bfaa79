import OlpEdgeSdk.Analysis.QuotaAccounting
import OlpEdgeSdk.Interface.QueuedRequests

/-!
# The delivery of requests

A request that `Send` has taken in is in the queue of its group, in the hand of the dispatcher, in
flight in the protocol, or completed; the sum of the four stays one (`places_step`), so no
callback is called twice. A `Cancel` looks into the queues and then goes to the protocol. What it
misses is the hand of the dispatcher: the mutex is taken only after the request is popped, and a
request that goes back into its queue does so behind a `Cancel` that has looked there.
-/

set_option autoImplicit false

namespace OlpEdgeSdk.Analysis.Decorator

open OlpEdgeSdk.Base OlpEdgeSdk.Interface OlpEdgeSdk.Model OlpEdgeSdk.Model.NetworkProtocol
open OlpEdgeSdk.Model.NetworkRequestPriorityQueueDecorator

variable {s s' : State} {event : Event}

/-! ## The requests of a run -/

/-- The decorator with a record of its requests, each with its group: those that `Send` took in,
those that are completed, and for each call of `Cancel` the request it is after, if there was
one to cancel when it was called. -/
structure Traced where
  state : State
  sent : List (ℕ × RequestContext)
  completed : List (ℕ × RequestContext)
  pursued : List (Option (ℕ × RequestContext))

/-- The request that `Send` takes in. -/
def sentBy (s : State) : Event → List (ℕ × RequestContext)
  | .send request id hasCallback =>
    match select s.queues request with
    | some i => [(i, ⟨request, id, hasCallback⟩)]
    | none => []
  | _ => []

/-- The requests a call of `Cancel` finds in the queue it looks into. -/
def foundBy (s : State) (k : ℕ) : List (ℕ × RequestContext) :=
  match s.cancels[k]? with
  | some ⟨id, _, .looking i⟩ =>
    match s.queues[i]? with
    | some group =>
      (group.queue.removeIf fun context => context.id = id).1.map fun context => (i, context)
    | none => []
  | _ => []

/-- The requests that are completed: taken out of their queue by a `Cancel`, told an error of
the protocol, or called back by it. -/
def completedBy (s : State) : Event → List (ℕ × RequestContext)
  | .cancelLooks k => foundBy s k
  | .sendReturns code =>
    match s.dispatcher with
    | .sending i context false => if code = .errorNotReady then [] else [(i, context)]
    | _ => []
  | .callback k _ =>
    match s.accepted[k]? with
    | some ⟨i, context, false⟩ => [(i, context)]
    | _ => []
  | _ => []

/-- The calls of `Cancel` that are left, with what they are after. -/
def pursuedBy (t : Traced) : Event → List (Option (ℕ × RequestContext))
  | .cancel id _ =>
    t.pursued ++ [t.sent.find? fun p => decide (p.2.id = id) && decide (p ∉ t.completed)]
  | .cancelLooks k =>
    match t.state.cancels[k]? with
    | some ⟨_, pendingOnly, .looking i⟩ =>
      if !(foundBy t.state k).isEmpty || (t.state.queues[i]?.isNone && pendingOnly) then
        t.pursued.eraseIdx k
      else t.pursued
    | _ => t.pursued
  | .cancelReturns k _ => t.pursued.eraseIdx k
  | _ => t.pursued

def tracedStep (t : Traced) (event : Event) : Option Traced :=
  (step t.state event).map fun s => ⟨s, t.sent ++ sentBy t.state event,
    t.completed ++ completedBy t.state event, pursuedBy t event⟩

def Traced.start (defaultQuotaGroupSize : UInt64)
    (queueConfigs : List (UInt64 × (NetworkRequest → Bool))) : Traced :=
  ⟨new defaultQuotaGroupSize queueConfigs, [], [], []⟩

/-! ## The places of a request -/

/-- How often a request is in the queue of its group. -/
def waiting (queues : List QuotaQueue) (p : ℕ × RequestContext) : ℕ :=
  match queues[p.1]? with
  | some group => queuedCount group.queue p.2
  | none => 0

/-- Whether the dispatcher has popped it and the protocol has not accepted it. -/
def inHand (d : Dispatcher) (p : ℕ × RequestContext) : ℕ :=
  match d with
  | .holding i context | .sending i context false => if (i, context) = p then 1 else 0
  | _ => 0

/-- How often it is in flight: accepted by the protocol and not called back. -/
def flying (s : State) (p : ℕ × RequestContext) : ℕ := s.accepted.count ⟨p.1, p.2, false⟩

/-- How many places a request is in. -/
def places (s : State) (p : ℕ × RequestContext) : ℕ :=
  waiting s.queues p + inHand s.dispatcher p + flying s p

theorem waiting_modify (queues : List QuotaQueue) (i : ℕ) {f : QuotaQueue → QuotaQueue}
    (hf : ∀ group, (f group).queue = group.queue) (p : ℕ × RequestContext) :
    waiting (queues.modify i f) p = waiting queues p := by
  rw [waiting, waiting, List.getElem?_modify]
  cases queues[p.1]? with
  | none => rfl
  | some group =>
    by_cases hi : i = p.1
    · simp [hi, hf]
    · simp [hi]

@[simp] theorem waiting_raise (queues : List QuotaQueue) (i : ℕ) (p : ℕ × RequestContext) :
    waiting (queues.modify i .raise) p = waiting queues p :=
  waiting_modify queues i (f := .raise) (fun _ => rfl) p

@[simp] theorem waiting_lower (queues : List QuotaQueue) (i : ℕ) (p : ℕ × RequestContext) :
    waiting (queues.modify i .lower) p = waiting queues p :=
  waiting_modify queues i (f := .lower) (fun _ => rfl) p

theorem waiting_push {queues : List QuotaQueue} {i : ℕ} (hi : i < queues.length)
    (context : RequestContext) (p : ℕ × RequestContext) :
    waiting (queues.modify i (.push context)) p =
      waiting queues p + if (i, context) = p then 1 else 0 := by
  obtain ⟨j, other⟩ := p
  simp only [waiting, List.getElem?_modify, Prod.mk.injEq]
  by_cases hj : i = j
  · subst hj
    simp [List.getElem?_eq_getElem hi, QuotaQueue.push, queuedCount_push]
  · cases hother : queues[j]? with
    | none => simp [hj]
    | some group => simp [hj]

theorem waiting_set {queues : List QuotaQueue} {i : ℕ} {group : QuotaQueue}
    (hi : queues[i]? = some group) (queue : NetworkRequestPriorityQueue)
    (p : ℕ × RequestContext) :
    waiting (queues.set i { group with queue := queue }) p =
      if p.1 = i then queuedCount queue p.2 else waiting queues p := by
  rw [waiting, getElem?_set_of_some hi]
  by_cases hp : p.1 = i
  · simp [hp]
  · simp only [hp, if_false]
    rfl

theorem waiting_of_group {queues : List QuotaQueue} {i : ℕ} {group : QuotaQueue}
    (hi : queues[i]? = some group) (p : ℕ × RequestContext) (hp : p.1 = i) :
    waiting queues p = queuedCount group.queue p.2 := by
  rw [waiting, hp, hi]

theorem select_lt {queues : List QuotaQueue} {request : NetworkRequest} {i : ℕ}
    (h : select queues request = some i) : i < queues.length := by
  obtain ⟨⟨group, j⟩, hfind, rfl⟩ := Option.map_eq_some_iff.mp h
  have hmem := List.mem_of_find?_eq_some hfind
  rw [List.mem_reverse] at hmem
  have := (List.mem_zipIdx hmem).2.1
  omega

/-- A change of the dispatcher that takes up and lays down no request. -/
theorem places_dispatcher {d : Dispatcher} (h : ∀ p, inHand d p = inHand s.dispatcher p)
    (p : ℕ × RequestContext) : places { s with dispatcher := d } p = places s p := by
  simp only [places, flying, h]

theorem inHand_next (s : State) (i : ℕ) (p : ℕ × RequestContext) : inHand (s.next i) p = 0 := by
  rcases next_cases s i with hnext | hnext
  · rw [hnext]
    rfl
  · rw [hnext]
    rfl

theorem completedBy_sendReturns {code : ErrorCode} {i : ℕ} {context : RequestContext}
    (hdispatcher : s.dispatcher = .sending i context false) :
    completedBy s (.sendReturns code) =
      if code = .errorNotReady then [] else [(i, context)] := by
  simp only [completedBy, hdispatcher]

theorem foundBy_of_group {k i : ℕ} {id : ℤ} {pendingOnly : Bool} {group : QuotaQueue}
    (hcall : s.cancels[k]? = some ⟨id, pendingOnly, .looking i⟩)
    (hgroup : s.queues[i]? = some group) :
    foundBy s k = (group.queue.removeIf fun context => context.id = id).1.map
      fun context => (i, context) := by
  simp only [foundBy, hcall, hgroup]

theorem count_map_pair (i : ℕ) (contexts : List RequestContext) (p : ℕ × RequestContext) :
    (contexts.map fun context => (i, context)).count p =
      if p.1 = i then contexts.count p.2 else 0 := by
  obtain ⟨j, context⟩ := p
  by_cases hj : j = i
  · rw [if_pos hj, hj]
    exact List.count_map_of_injective contexts _ (fun a b heq => congrArg Prod.snd heq) context
  · rw [if_neg hj]
    apply List.count_eq_zero_of_not_mem
    rw [List.mem_map]
    rintro ⟨other, -, heq⟩
    exact hj (congrArg Prod.fst heq).symm

/-- A callback that begins takes its request out of those that are in flight. -/
theorem count_calledBack {accepted : List Accepted} {k i : ℕ} {context : RequestContext}
    (hentry : accepted[k]? = some ⟨i, context, false⟩) (p : ℕ × RequestContext) :
    (accepted.set k ⟨i, context, true⟩).count ⟨p.1, p.2, false⟩ + [(i, context)].count p =
      accepted.count ⟨p.1, p.2, false⟩ := by
  obtain ⟨j, other⟩ := p
  have hcount := countP_set_of_some (· == Accepted.mk j other false) hentry ⟨i, context, true⟩
  have hafter : (Accepted.mk i context true == ⟨j, other, false⟩) = false :=
    beq_false_of_ne (by simp)
  rw [hafter] at hcount
  simp only [List.count, List.countP_singleton]
  by_cases hsame : (i, context) = (j, other)
  · cases hsame
    simp only [beq_self_eq_true, Bool.toNat_true, Bool.toNat_false, if_true] at hcount ⊢
    omega
  · have hbefore : (Accepted.mk i context false == ⟨j, other, false⟩) = false := by
      refine beq_false_of_ne fun heq => hsame ?_
      cases heq
      rfl
    rw [hbefore] at hcount
    rw [beq_false_of_ne hsame]
    simp only [Bool.toNat_false, Bool.false_eq_true, if_false] at hcount ⊢
    omega

/-- A callback that returns was not in flight any more. -/
theorem count_callbackReturned {accepted : List Accepted} {k i : ℕ} {context : RequestContext}
    (hentry : accepted[k]? = some ⟨i, context, true⟩) (p : ℕ × RequestContext) :
    (accepted.eraseIdx k).count ⟨p.1, p.2, false⟩ = accepted.count ⟨p.1, p.2, false⟩ := by
  have hafter : (Accepted.mk i context true == ⟨p.1, p.2, false⟩) = false :=
    beq_false_of_ne (by simp)
  have hflying := countP_eraseIdx_of_some (· == Accepted.mk p.1 p.2 false) hentry
  rw [hafter, Bool.toNat_false, Nat.add_zero] at hflying
  exact hflying.symm

/-- **No step loses a request or makes two of it**: the places it is in, and its completions,
grow by the times it was sent. -/
theorem places_step (hlocated : Located s) (hmoved : Moved s event s')
    (p : ℕ × RequestContext) :
    places s' p + (completedBy s event).count p = places s p + (sentBy s event).count p := by
  cases hmoved with
  | queued hopen hselect =>
    simp only [places, sentBy, completedBy, hselect, waiting_push (select_lt hselect), flying,
      List.count_singleton, List.count_nil, beq_iff_eq]
    omega
  | overloaded hopen hselect => simp [sentBy, completedBy, hselect]
  | cancelCalled | cancelReturned | destroyed => rfl
  | cancelMissed hcall hgroup =>
    simp only [completedBy, foundBy, hcall, hgroup]
    rfl
  | cancelLocked => rfl
  | cancelLooked hcall hgroup hcancels hdelivered =>
    rename_i k i id pendingOnly group cancels delivered
    have hremoved := queuedCount_removeIf group.queue (fun context => context.id = id) p.2
    simp only [completedBy, sentBy, foundBy_of_group hcall hgroup, count_map_pair, places,
      waiting_set hgroup, flying, List.count_nil]
    split
    · next hp =>
      rw [waiting_of_group hgroup p hp]
      omega
    · omega
  | ended hdispatcher | looped hdispatcher | unready hdispatcher =>
    rw [places_dispatcher (fun p => by rw [hdispatcher]; rfl)]
    rfl
  | chose hdispatcher =>
    rw [places_dispatcher (fun p => by rw [hdispatcher]; rfl)]
    rfl
  | woken hdispatcher =>
    simp only [places, hdispatcher]
    rfl
  | passedOver hdispatcher | foundEmpty hdispatcher =>
    rw [places_dispatcher (fun p => by rw [hdispatcher, inHand_next]; rfl)]
    rfl
  | popped hdispatcher hgroup hpop =>
    rename_i i group context queue
    obtain ⟨j, other⟩ := p
    have hcount := queuedCount_pop hpop other
    simp only [places, hdispatcher, waiting_set hgroup, inHand, completedBy, sentBy, List.count_nil]
    by_cases hj : i = j
    · subst hj
      simp only [if_true, Prod.mk.injEq, true_and, waiting_of_group hgroup (i, other) rfl, flying]
      omega
    · simp [hj, Ne.symm hj, flying]
  | sendStarted hdispatcher hfree =>
    simp only [places, hdispatcher, waiting_raise]
    rfl
  | accepted hdispatcher =>
    obtain ⟨j, other⟩ := p
    simp only [places, hdispatcher, inHand, flying, List.count_append, List.count_singleton,
      beq_iff_eq, completedBy, sentBy, List.count_nil, Accepted.mk.injEq, Prod.mk.injEq, and_true]
    omega
  | sendSucceeded hdispatcher =>
    simp only [places, hdispatcher, completedBy]
    rfl
  | pushedBack hdispatcher =>
    rename_i i context
    have hlt : i < s.queues.length := hlocated i (by rw [hdispatcher]; rfl)
    simp only [places, hdispatcher, waiting_push hlt, inHand, flying, completedBy, sentBy,
      if_true, List.count_nil]
    omega
  | refused hdispatcher hnone hready =>
    simp only [places, hdispatcher, completedBy, hready, if_false, inHand, sentBy, flying,
      List.count_singleton, beq_iff_eq, List.count_nil]
    omega
  | errorReported hdispatcher =>
    simp only [places, hdispatcher, waiting_lower]
    rfl
  | calledBack hentry hdelivered =>
    have hcount := count_calledBack hentry p
    simp only [places, flying, completedBy, hentry, sentBy, List.count_nil]
    omega
  | callbackReturned hentry =>
    simp only [places, waiting_lower, flying, count_callbackReturned hentry p]
    rfl

/-! ## Callbacks -/

/-- **The callbacks that a step calls** are those of the requests that it completes. -/
theorem delivered_step (hmoved : Moved s event s') :
    s'.delivered.map Prod.fst = s.delivered.map Prod.fst ++
      ((completedBy s event).map Prod.snd).filter RequestContext.hasCallback := by
  cases hmoved with
  | cancelLooked hcall hgroup hcancels hdelivered =>
    rw [hdelivered, completedBy, foundBy_of_group hcall hgroup, List.map_append, List.map_map,
      List.map_map]
    congr 1
    simp only [Function.comp_def, List.map_id']
  | cancelMissed hcall hgroup => simp [completedBy, foundBy, hcall, hgroup]
  | sendSucceeded hdispatcher => simp [completedBy, hdispatcher]
  | pushedBack hdispatcher => simp [completedBy, hdispatcher]
  | refused hdispatcher hnone hready hdelivered =>
    rw [hdelivered, completedBy_sendReturns hdispatcher, if_neg hready, List.map_append,
      List.map_map]
    congr 1
    simp only [Function.comp_def, List.map_id', List.map_singleton]
  | calledBack hentry hdelivered =>
    rw [hdelivered, List.map_append, List.map_map]
    simp only [completedBy, hentry, Function.comp_def, List.map_id', List.map_singleton]
  | queued | overloaded | cancelCalled | cancelLocked | cancelReturned | ended | looped | unready
  | passedOver | chose | popped | foundEmpty | sendStarted | accepted | errorReported | woken
  | callbackReturned | destroyed => simp [completedBy]

/-! ## What a `Cancel` is after -/

/-- Each call of `Cancel` is after a request of its id, or after none. -/
structure Follows (sent : List (ℕ × RequestContext)) (pursued : List (Option (ℕ × RequestContext)))
    (cancels : List CancelCall) : Prop where
  length_eq : pursued.length = cancels.length
  id_eq : ∀ (k : ℕ) (p : ℕ × RequestContext), pursued[k]? = some (some p) →
    p ∈ sent ∧ cancels[k]?.map CancelCall.id = some p.2.id

variable {sent : List (ℕ × RequestContext)} {pursued : List (Option (ℕ × RequestContext))}
  {cancels : List CancelCall}

theorem Follows.mono (h : Follows sent pursued cancels) (more : List (ℕ × RequestContext)) :
    Follows (sent ++ more) pursued cancels :=
  ⟨h.length_eq, fun k p hk => ⟨List.mem_append_left _ (h.id_eq k p hk).1, (h.id_eq k p hk).2⟩⟩

theorem Follows.append (h : Follows sent pursued cancels) {target : Option (ℕ × RequestContext)}
    {call : CancelCall} (htarget : ∀ p ∈ target, p ∈ sent ∧ p.2.id = call.id) :
    Follows sent (pursued ++ [target]) (cancels ++ [call]) := by
  refine ⟨by simp [h.length_eq], fun k p hk => ?_⟩
  rw [List.getElem?_append] at hk ⊢
  rw [← h.length_eq]
  split at hk
  · next hlt =>
    rw [if_pos hlt]
    exact h.id_eq k p hk
  · next hle =>
    rw [if_neg hle]
    rw [List.getElem?_singleton] at hk ⊢
    split at hk
    · next hzero =>
      obtain ⟨hmem, hid⟩ := htarget p (Option.some.inj hk)
      rw [if_pos hzero]
      exact ⟨hmem, congrArg some hid.symm⟩
    · cases hk

theorem Follows.set (h : Follows sent pursued cancels) {k : ℕ} {call call' : CancelCall}
    (hcall : cancels[k]? = some call) (hid : call'.id = call.id) :
    Follows sent pursued (cancels.set k call') := by
  refine ⟨by rw [List.length_set, h.length_eq], fun j p hj => ?_⟩
  obtain ⟨hmem, hold⟩ := h.id_eq j p hj
  refine ⟨hmem, ?_⟩
  rw [getElem?_set_of_some hcall]
  split
  · next hjk =>
    rw [hjk, hcall] at hold
    rw [Option.map_some, hid]
    exact hold
  · exact hold

theorem Follows.eraseIdx (h : Follows sent pursued cancels) (k : ℕ) :
    Follows sent (pursued.eraseIdx k) (cancels.eraseIdx k) := by
  refine ⟨by rw [List.length_eraseIdx, List.length_eraseIdx, h.length_eq], fun j p hj => ?_⟩
  rw [List.getElem?_eraseIdx] at hj ⊢
  split at hj
  · next hlt =>
    rw [if_pos hlt]
    exact h.id_eq j p hj
  · next hle =>
    rw [if_neg hle]
    exact h.id_eq (j + 1) p hj

theorem follows_step {t : Traced} (h : Follows t.sent t.pursued t.state.cancels)
    (hmoved : Moved t.state event s') : Follows t.sent (pursuedBy t event) s'.cancels := by
  cases hmoved with
  | cancelCalled hopen =>
    refine h.append fun p hp => ?_
    have hfound := List.find?_some hp
    rw [Bool.and_eq_true, decide_eq_true_eq] at hfound
    exact ⟨List.mem_of_find?_eq_some hp, hfound.1⟩
  | cancelLooked hcall hgroup hcancels hdelivered =>
    rename_i k i id pendingOnly group cancels delivered
    simp only [pursuedBy, hcall, hgroup, foundBy_of_group hcall hgroup, hcancels]
    cases hempty : (group.queue.removeIf fun context => context.id = id).1.isEmpty with
    | true =>
      have hnil := List.isEmpty_iff.mp hempty
      rw [hnil]
      exact h.set hcall rfl
    | false =>
      simp only [List.isEmpty_map, hempty, Bool.not_false, Bool.true_or, if_true,
        Bool.false_eq_true, if_false]
      exact h.eraseIdx k
  | cancelMissed hcall hgroup hcancels =>
    rename_i k i id pendingOnly cancels
    simp only [pursuedBy, hcall, hgroup, foundBy, hcancels]
    cases pendingOnly with
    | true => exact h.eraseIdx k
    | false => exact h.set hcall rfl
  | cancelLocked hcall hfree => exact h.set hcall rfl
  | cancelReturned hcall => exact h.eraseIdx _
  | queued | overloaded | ended | looped | unready | passedOver | chose | popped | foundEmpty
  | sendStarted | accepted | sendSucceeded | pushedBack | refused | errorReported | woken
  | calledBack | callbackReturned | destroyed => exact h

/-! ## The record of a run -/

/-- The ids of the requests are unique. -/
def FreshId (t : Traced) : Event → Prop
  | .send _ id _ => ∀ p ∈ t.sent, p.2.id ≠ id
  | _ => True

instance decidableFreshId (t : Traced) : ∀ event, Decidable (FreshId t event)
  | .send _ id _ => inferInstanceAs (Decidable (∀ p ∈ t.sent, p.2.id ≠ id))
  | .cancel _ _ | .cancelLooks _ | .cancelLocks _ | .cancelReturns _ _ | .loop | .visit _ | .pop
  | .startSend | .accept | .sendReturns _ | .errorReported | .wake | .callback _ _
  | .callbackReturns _ | .destroy => isTrue trivial

/-- **The invariant.** Each time a request was sent it is in one place or completed; the
callbacks called are those of the completed requests. -/
structure Recorded (t : Traced) : Prop where
  located : Located t.state
  balance : ∀ p, places t.state p + t.completed.count p = t.sent.count p
  unique : (t.sent.map fun p => p.2.id).Nodup
  delivered : t.state.delivered.map Prod.fst =
    (t.completed.map Prod.snd).filter RequestContext.hasCallback
  follows : Follows t.sent t.pursued t.state.cancels

theorem places_new (defaultQuotaGroupSize : UInt64)
    (queueConfigs : List (UInt64 × (NetworkRequest → Bool))) (p : ℕ × RequestContext) :
    places (new defaultQuotaGroupSize queueConfigs) p = 0 := by
  have hwaiting : waiting (new defaultQuotaGroupSize queueConfigs).queues p = 0 := by
    rw [waiting]
    split
    · next group hgroup =>
      have hmem := List.mem_of_getElem? hgroup
      simp only [new, List.mem_cons, List.mem_map] at hmem
      rcases hmem with rfl | ⟨config, -, rfl⟩
      · exact queuedCount_empty p.2
      · exact queuedCount_empty p.2
    · rfl
  rw [places, hwaiting]
  rfl

theorem recorded_start (defaultQuotaGroupSize : UInt64)
    (queueConfigs : List (UInt64 × (NetworkRequest → Bool))) :
    Recorded (Traced.start defaultQuotaGroupSize queueConfigs) where
  located := fun _ hbusy => nomatch hbusy
  balance := places_new defaultQuotaGroupSize queueConfigs
  unique := List.nodup_nil
  delivered := rfl
  follows := ⟨rfl, by simp [Traced.start]⟩

theorem nodup_append_sentBy {t : Traced} (h : (t.sent.map fun p => p.2.id).Nodup)
    (hfresh : FreshId t event) :
    ((t.sent.map fun p => p.2.id) ++ (sentBy t.state event).map fun p => p.2.id).Nodup := by
  cases event with
  | send request id hasCallback =>
    cases hselect : select t.state.queues request with
    | none =>
      simp only [sentBy, hselect, List.map_nil, List.append_nil]
      exact h
    | some i =>
      simp only [sentBy, hselect, List.map_singleton]
      rw [List.nodup_append]
      refine ⟨h, by simp, ?_⟩
      intro a ha b hb
      obtain ⟨p, hp, rfl⟩ := List.mem_map.mp ha
      rw [List.mem_singleton.mp hb]
      exact hfresh p hp
  | cancel | cancelLooks | cancelLocks | cancelReturns | loop | visit | pop | startSend | accept
  | sendReturns | errorReported | wake | callback | callbackReturns | destroy =>
    simp only [sentBy, List.map_nil, List.append_nil]
    exact h

theorem Recorded.step {t t' : Traced} (h : Recorded t) (hfresh : FreshId t event)
    (hstep : tracedStep t event = some t') : Recorded t' := by
  obtain ⟨s', hs', rfl⟩ := Option.map_eq_some_iff.mp hstep
  have hmoved := moved_step hs'
  refine ⟨h.located.step hs', fun p => ?_, ?_, ?_, (follows_step h.follows hmoved).mono _⟩
  · have hplaces := places_step h.located hmoved p
    have hbalance := h.balance p
    simp only [List.count_append]
    omega
  · rw [List.map_append]
    exact nodup_append_sentBy h.unique hfresh
  · rw [delivered_step hmoved, h.delivered, List.map_append, List.filter_append]

/-! ## What the decorator should do -/

/-- Every callback is called at most once, and every request is in exactly one place: in the
queue of its group, in the hand of the dispatcher, in flight, or completed. -/
structure Delivered (t : Traced) : Prop where
  once : (t.state.delivered.map fun entry => entry.1.id).Nodup
  placed : ∀ p ∈ t.sent, waiting t.state.queues p + inHand t.state.dispatcher p +
    flying t.state p + t.completed.count p = 1

/-- No `Cancel` is lost: what it finds in a queue is the request it is after, which is completed
with the cancelled response; and if it finds nothing, then by the time it goes to the protocol
the request is in flight, or it was completed meanwhile. -/
def KeepsCancel (t : Traced) (event : Event) : Prop :=
  ∀ t', tracedStep t event = some t' →
    match event with
    | .cancelLooks k => ∀ p, t.pursued[k]? = some (some p) → foundBy t.state k ≠ [] →
      waiting t.state.queues p = 1 ∧ p ∈ t'.completed ∧
        (p.2.hasCallback = true → (p.2, cancelledResponse p.2) ∈ t'.state.delivered)
    | .cancelLocks k => ∀ p, t.pursued[k]? = some (some p) →
      0 < flying t.state p ∨ p ∈ t.completed
    | _ => True

/-- When a `Cancel` takes the mutex, the dispatcher does not hold the request that it has popped
and not begun to send, and the request is not back in its queue. -/
def CaughtUp (t : Traced) : Event → Prop
  | .cancelLocks k => t.state.cancels[k]?.map CancelCall.position = some .locking →
    t.state.isFree = true → ∀ p, t.pursued[k]? = some (some p) →
      t.state.dispatcher ≠ .holding p.1 p.2 ∧ waiting t.state.queues p = 0
  | _ => True

theorem Recorded.count_sent {t : Traced} (h : Recorded t) {p : ℕ × RequestContext}
    (hp : p ∈ t.sent) : t.sent.count p = 1 :=
  List.count_eq_one_of_mem (List.Nodup.of_map _ h.unique) hp

theorem Recorded.eq_of_id {t : Traced} (h : Recorded t) {p q : ℕ × RequestContext}
    (hp : p ∈ t.sent) (hq : q ∈ t.sent) (hid : p.2.id = q.2.id) : p = q :=
  List.inj_on_of_nodup_map h.unique hp hq hid

theorem Recorded.mem_sent {t : Traced} (h : Recorded t) {p : ℕ × RequestContext}
    (hp : 0 < places t.state p + t.completed.count p) : p ∈ t.sent := by
  rw [h.balance p] at hp
  exact List.count_pos_iff.mp hp

theorem Recorded.toDelivered {t : Traced} (h : Recorded t) : Delivered t where
  once := by
    have hcompleted : t.completed.Nodup := by
      rw [List.nodup_iff_count_le_one]
      intro p
      have hbalance := h.balance p
      have hle := List.nodup_iff_count_le_one.mp (List.Nodup.of_map _ h.unique) p
      omega
    have hids : (t.completed.map fun p => p.2.id).Nodup := by
      refine hcompleted.map_on fun p hp q hq hid => h.eq_of_id ?_ ?_ hid
      · exact h.mem_sent (Nat.lt_of_lt_of_le (List.count_pos_iff.mpr hp) (Nat.le_add_left _ _))
      · exact h.mem_sent (Nat.lt_of_lt_of_le (List.count_pos_iff.mpr hq) (Nat.le_add_left _ _))
    have hmap : t.state.delivered.map (fun entry => entry.1.id) =
        ((t.completed.map Prod.snd).filter RequestContext.hasCallback).map RequestContext.id := by
      rw [← h.delivered, List.map_map]
      rfl
    rw [hmap]
    have hsublist := (List.filter_sublist (p := RequestContext.hasCallback)
      (l := t.completed.map Prod.snd)).map RequestContext.id
    rw [List.map_map] at hsublist
    exact hids.sublist hsublist
  placed p hp := by
    rw [← h.count_sent hp, ← h.balance p]
    rfl

theorem inHand_of_isFree (hfree : s.isFree = true) {p : ℕ × RequestContext}
    (hnot : s.dispatcher ≠ .holding p.1 p.2) : inHand s.dispatcher p = 0 := by
  rw [State.isFree, Bool.and_eq_true] at hfree
  cases hdispatcher : s.dispatcher with
  | holding i context =>
    rw [inHand, if_neg]
    rintro rfl
    exact hnot hdispatcher
  | sending i context accepted => simp [State.isBetweenSteps, hdispatcher] at hfree
  | looping | visiting | popping | reporting | waiting | stopped => rfl

/-- **What a `Cancel` finds in a queue** is the request it is after. -/
theorem Recorded.keepsCancel_cancelLooks {t : Traced} (h : Recorded t) (k : ℕ) :
    KeepsCancel t (.cancelLooks k) := by
  intro t' hstep p hp hfound
  obtain ⟨s', hs', rfl⟩ := Option.map_eq_some_iff.mp hstep
  obtain ⟨hsent, hid⟩ := h.follows.id_eq k p hp
  cases moved_step hs' with
  | cancelMissed hcall hgroup => simp [foundBy, hcall, hgroup] at hfound
  | cancelLooked hcall hgroup hcancels hdelivered =>
    rename_i i id pendingOnly group cancels delivered
    have hfoundBy := foundBy_of_group hcall hgroup
    rw [hcall, Option.map_some, Option.some.injEq] at hid
    rw [hfoundBy, ne_eq, List.map_eq_nil_iff] at hfound
    obtain ⟨context, hcontext⟩ := List.exists_mem_of_ne_nil _ hfound
    have hcontextId : context.id = id := by simpa using mem_removeIf hcontext
    -- the request found is waiting, so it was sent, and its id says which one it is
    have hwaiting : 0 < waiting t.state.queues (i, context) := by
      rw [waiting_of_group hgroup (i, context) rfl, queuedCount_removeIf]
      exact Nat.lt_of_lt_of_le (List.count_pos_iff.mpr hcontext) (Nat.le_add_right _ _)
    have hmem : (i, context) ∈ t.sent := by
      apply h.mem_sent
      rw [places]
      omega
    have heq : (i, context) = p := h.eq_of_id hmem hsent (hcontextId.trans hid)
    subst heq
    refine ⟨?_, ?_, fun hcallback => ?_⟩
    · have hplaced := h.toDelivered.placed _ hmem
      omega
    · refine List.mem_append_right _ ?_
      rw [completedBy, hfoundBy]
      exact List.mem_map_of_mem hcontext
    · simp only [hdelivered]
      refine List.mem_append_right _ (List.mem_map.mpr ⟨context, ?_, rfl⟩)
      exact List.mem_filter.mpr ⟨hcontext, hcallback⟩

/-- **A `Cancel` that goes to the protocol** finds its request there, or completed, exactly if the
request is not with the dispatcher or back in its queue. -/
theorem Recorded.keepsCancel_cancelLocks_iff {t : Traced} (h : Recorded t) (k : ℕ) :
    KeepsCancel t (.cancelLocks k) ↔ CaughtUp t (.cancelLocks k) := by
  constructor
  · intro hkeeps hlocking hfree p hp
    have hplaced := h.toDelivered.placed p (h.follows.id_eq k p hp).1
    obtain ⟨⟨id, pendingOnly, position⟩, hcall, rfl⟩ := Option.map_eq_some_iff.mp hlocking
    have hstep : ∃ t', tracedStep t (.cancelLocks k) = some t' := by
      simp [tracedStep, NetworkRequestPriorityQueueDecorator.step, hcall, hfree]
    obtain ⟨t', ht'⟩ := hstep
    have hreached : 0 < flying t.state p + t.completed.count p := by
      rcases hkeeps t' ht' p hp with hflying | hcompleted
      · omega
      · have := List.count_pos_iff.mpr hcompleted
        omega
    refine ⟨fun hholding => ?_, by omega⟩
    rw [hholding, inHand, if_pos rfl] at hplaced
    omega
  · intro hcaught t' hstep p hp
    obtain ⟨s', hs', rfl⟩ := Option.map_eq_some_iff.mp hstep
    have hplaced := h.toDelivered.placed p (h.follows.id_eq k p hp).1
    cases moved_step hs' with
    | cancelLocked hcall hfree =>
      obtain ⟨hnot, hnone⟩ := hcaught (by rw [hcall]; rfl) hfree p hp
      rw [hnone, inHand_of_isFree hfree hnot] at hplaced
      by_cases hflying : 0 < flying t.state p
      · exact Or.inl hflying
      · refine Or.inr (List.count_pos_iff.mp ?_)
        omega

theorem Recorded.keepsCancel_iff {t : Traced} (h : Recorded t) (event : Event) :
    KeepsCancel t event ↔ CaughtUp t event := by
  cases event with
  | cancelLooks k => exact iff_of_true (h.keepsCancel_cancelLooks k) trivial
  | cancelLocks k => exact h.keepsCancel_cancelLocks_iff k
  | send | cancel | cancelReturns | loop | visit | pop | startSend | accept | sendReturns
  | errorReported | wake | callback | callbackReturns | destroy =>
    exact iff_of_true (fun _ _ => trivial) trivial

/-! ## Whole runs -/

/-- The record keeps no run of the decorator from happening. -/
theorem runFrom_traced (t : Traced) (events : List Event) :
    (runFrom tracedStep t events).map Traced.state = runFrom step t.state events := by
  induction events generalizing t with
  | nil => rfl
  | cons event events ih =>
    simp only [runFrom, tracedStep, Option.map_bind, Option.bind_map]
    congr 1
    funext s
    exact ih _

/-- **When the decorator loses no `Cancel`.** For every configuration of groups and every run with
unique ids, with any interleaving of calls, steps of the dispatcher and of the protocol: every
callback is called at most once and every request is always in exactly one place; and no
`Cancel` of a request that is not completed is lost if and only if, whenever a `Cancel` takes the
mutex, its request is neither between `Pop` and `SendRequest` nor back in its queue.
SOURCE: NetworkRequestPriorityQueueDecorator.cpp:56-97, 129-190, 210-258 -/
theorem delivery (defaultQuotaGroupSize : UInt64)
    (queueConfigs : List (UInt64 × (NetworkRequest → Bool))) (events : List Event)
    (hunique : Along tracedStep FreshId (.start defaultQuotaGroupSize queueConfigs) events) :
    (∀ before, before <+: events → ∀ t,
        runFrom tracedStep (.start defaultQuotaGroupSize queueConfigs) before = some t →
        Delivered t) ∧
    (Along tracedStep KeepsCancel (.start defaultQuotaGroupSize queueConfigs) events ↔
      Along tracedStep CaughtUp (.start defaultQuotaGroupSize queueConfigs) events) := by
  have hstart := recorded_start defaultQuotaGroupSize queueConfigs
  have hkept : ∀ t event t', Recorded t → FreshId t event → tracedStep t event = some t' →
      Recorded t' := fun t event t' h hfresh hstep => h.step hfresh hstep
  constructor
  · rintro before ⟨after, rfl⟩ t hrun
    exact (invariant_along Recorded hkept hrun (along_append.mp hunique).1 hstart).toDelivered
  · exact along_congr Recorded hkept (fun t event h => h.keepsCancel_iff event) hstart hunique

/-- One request is cancelled in its queue, another one while it is in flight. -/
theorem delivery_two_cancels :
    let events : List Event := [.send exampleRequest 1 true, .send exampleRequest 2 true, .loop,
      .visit true, .pop, .startSend, .accept, .cancel 2 false, .cancelLooks 0, .cancel 1 false,
      .cancelLooks 0, .cancelLooks 0, .sendReturns .errorNone, .cancelLocks 0,
      .callback 0 (.simple 1 (-5) []), .cancelReturns 0 true]
    ∃ t, runFrom tracedStep (.start 1 []) events = some t ∧
      t.state.delivered.map (fun entry => (entry.1.id, entry.2.status)) = [(2, -5), (1, -5)] ∧
      Delivered t := by
  intro events
  refine ⟨_, rfl, rfl, ?_⟩
  exact (delivery 1 [] events (by decide)).1 events List.prefix_rfl _ rfl

/-- A `Cancel` looks into the queue after the dispatcher has popped the request, and takes the
mutex before it: the protocol does not know the request, and then it is sent and answered. -/
theorem cancel_lost :
    let events : List Event := [.send exampleRequest 1 true, .loop, .visit true, .pop,
      .cancel 1 false, .cancelLooks 0, .cancelLooks 0, .cancelLocks 0, .cancelReturns 0 false,
      .startSend, .accept, .sendReturns .errorNone, .callback 0 (.simple 1 200 [])]
    (∃ t, runFrom tracedStep (.start 1 []) events = some t ∧
      t.state.delivered.map (fun entry => (entry.1.id, entry.2.status)) = [(1, 200)]) ∧
    ¬ Along tracedStep KeepsCancel (.start 1 []) events := by
  intro events
  refine ⟨⟨_, rfl, rfl⟩, fun halong => ?_⟩
  have hlocks := along_iff_forall_split.mp halong (events.take 7) (.cancelLocks 0) (events.drop 8)
    rfl _ rfl _ rfl (0, ⟨exampleRequest, 1, true⟩) rfl
  exact absurd hlocks (by decide)

end OlpEdgeSdk.Analysis.Decorator

import Mathlib.Tactic
import OlpEdgeSdk.Base.Entries
import OlpEdgeSdk.Model.NetworkRequestPriorityQueueDecorator

/-!
# The accounting of quotas

The counter of a quota group should be the number of its requests that the protocol has. It is
raised before a request is sent and lowered when its callback is done or when an error has been
reported; only where the protocol returns `ErrorNotReady` the request goes back into its queue
and the counter stays as it is. So in every run the counter is the number of requests in flight
plus the number of times the protocol was not ready for a request of the group
(`counter_run`), and it is the number of requests in flight throughout a run iff the protocol
never returns `ErrorNotReady` (`quota_accounting_iff`). It never exceeds the quota, so it does
not wrap around.
-/

set_option autoImplicit false

namespace OlpEdgeSdk.Analysis.Decorator

open OlpEdgeSdk.Base OlpEdgeSdk.Model OlpEdgeSdk.Model.NetworkProtocol
open OlpEdgeSdk.Model.NetworkRequestPriorityQueueDecorator

variable {s s' : State} {event : Event}

/-! ## What a step can do -/

/-- **Inversion.** The events that can happen in a state, with what they lead to. -/
inductive Moved (s : State) : Event → State → Prop where
  | queued {request : NetworkRequest} {id : ℤ} {hasCallback : Bool} {i : ℕ}
      (hopen : s.stopThread = false) (hselect : select s.queues request = some i) :
      Moved s (.send request id hasCallback) { s with
        queues := s.queues.modify i (.push ⟨request, id, hasCallback⟩), isSatisfied := true }
  | overloaded {request : NetworkRequest} {id : ℤ} {hasCallback : Bool}
      (hopen : s.stopThread = false) (hselect : select s.queues request = none) :
      Moved s (.send request id hasCallback) s
  | cancelCalled {id : ℤ} {pendingOnly : Bool} (hopen : s.stopThread = false) :
      Moved s (.cancel id pendingOnly) { s with
        cancels := s.cancels ++ [⟨id, pendingOnly, .looking 0⟩] }
  | cancelLooked {k i : ℕ} {id : ℤ} {pendingOnly : Bool} {group : QuotaQueue}
      {cancels : List CancelCall} {delivered : List (RequestContext × NetworkResponse)}
      (hcall : s.cancels[k]? = some ⟨id, pendingOnly, .looking i⟩)
      (hgroup : s.queues[i]? = some group)
      (hcancels : cancels = if (group.queue.removeIf fun context => context.id = id).1.isEmpty
        then s.cancels.set k ⟨id, pendingOnly, .looking (i + 1)⟩ else s.cancels.eraseIdx k)
      (hdelivered : delivered = s.delivered ++
        ((group.queue.removeIf fun context => context.id = id).1.filter
          RequestContext.hasCallback).map fun context => (context, cancelledResponse context)) :
      Moved s (.cancelLooks k) { s with
        queues := s.queues.set i { group with
          queue := (group.queue.removeIf fun context => context.id = id).2 },
        cancels := cancels, delivered := delivered }
  | cancelMissed {k i : ℕ} {id : ℤ} {pendingOnly : Bool} {cancels : List CancelCall}
      (hcall : s.cancels[k]? = some ⟨id, pendingOnly, .looking i⟩) (hgroup : s.queues[i]? = none)
      (hcancels : cancels = if pendingOnly then s.cancels.eraseIdx k
        else s.cancels.set k ⟨id, pendingOnly, .locking⟩) :
      Moved s (.cancelLooks k) { s with cancels := cancels }
  | cancelLocked {k : ℕ} {id : ℤ} {pendingOnly : Bool}
      (hcall : s.cancels[k]? = some ⟨id, pendingOnly, .locking⟩) (hfree : s.isFree = true) :
      Moved s (.cancelLocks k) { s with
        cancels := s.cancels.set k ⟨id, pendingOnly, .inProtocol⟩ }
  | cancelReturned {k : ℕ} {id : ℤ} {pendingOnly result : Bool}
      (hcall : s.cancels[k]? = some ⟨id, pendingOnly, .inProtocol⟩) :
      Moved s (.cancelReturns k result) { s with
        cancels := s.cancels.eraseIdx k, isSatisfied := result || s.isSatisfied }
  | ended (hdispatcher : s.dispatcher = .looping) (hstop : s.stopThread = true) :
      Moved s .loop { s with dispatcher := .stopped }
  | looped (hdispatcher : s.dispatcher = .looping) (hopen : s.stopThread = false) :
      Moved s .loop { s with dispatcher := .visiting 0 }
  | unready {i : ℕ} {group : QuotaQueue} (hdispatcher : s.dispatcher = .visiting i)
      (hgroup : s.queues[i]? = some group) :
      Moved s (.visit false) { s with dispatcher := .waiting }
  | passedOver {i : ℕ} {group : QuotaQueue} (hdispatcher : s.dispatcher = .visiting i)
      (hgroup : s.queues[i]? = some group) (hexceeded : group.isExceeded = true) :
      Moved s (.visit true) { s with dispatcher := s.next i }
  | chose {i : ℕ} {group : QuotaQueue} (hdispatcher : s.dispatcher = .visiting i)
      (hgroup : s.queues[i]? = some group) (hroom : group.isExceeded = false) :
      Moved s (.visit true) { s with dispatcher := .popping i }
  | popped {i : ℕ} {group : QuotaQueue} {context : RequestContext}
      {queue : NetworkRequestPriorityQueue} (hdispatcher : s.dispatcher = .popping i)
      (hgroup : s.queues[i]? = some group) (hpop : group.queue.pop = some (context, queue)) :
      Moved s .pop { s with
        queues := s.queues.set i { group with queue := queue }, dispatcher := .holding i context }
  | foundEmpty {i : ℕ} {group : QuotaQueue} (hdispatcher : s.dispatcher = .popping i)
      (hgroup : s.queues[i]? = some group) (hpop : group.queue.pop = none) :
      Moved s .pop { s with dispatcher := s.next i }
  | sendStarted {i : ℕ} {context : RequestContext} (hdispatcher : s.dispatcher = .holding i context)
      (hfree : s.isFree = true) :
      Moved s .startSend { s with
        queues := s.queues.modify i .raise, dispatcher := .sending i context false }
  | accepted {i : ℕ} {context : RequestContext}
      (hdispatcher : s.dispatcher = .sending i context false) :
      Moved s .accept { s with
        dispatcher := .sending i context true, accepted := s.accepted ++ [⟨i, context, false⟩] }
  | sendSucceeded {i : ℕ} {context : RequestContext}
      (hdispatcher : s.dispatcher = .sending i context true) :
      Moved s (.sendReturns .errorNone) { s with
        answers := s.answers ++ [(i, .errorNone)], dispatcher := .looping }
  | pushedBack {i : ℕ} {context : RequestContext}
      (hdispatcher : s.dispatcher = .sending i context false) :
      Moved s (.sendReturns .errorNotReady) { s with
        answers := s.answers ++ [(i, .errorNotReady)],
        queues := s.queues.modify i (.push context), dispatcher := .looping }
  | refused {i : ℕ} {context : RequestContext} {code : ErrorCode}
      {delivered : List (RequestContext × NetworkResponse)}
      (hdispatcher : s.dispatcher = .sending i context false) (hnone : code ≠ .errorNone)
      (hready : code ≠ .errorNotReady)
      (hdelivered : delivered = s.delivered ++
        ([context].filter RequestContext.hasCallback).map fun context =>
          (context, handleSynchronousNetworkErrors code context.id)) :
      Moved s (.sendReturns code) { s with
        answers := s.answers ++ [(i, code)], dispatcher := .reporting i context,
        delivered := delivered }
  | errorReported {i : ℕ} {context : RequestContext}
      (hdispatcher : s.dispatcher = .reporting i context) :
      Moved s .errorReported { s with
        queues := s.queues.modify i .lower, isSatisfied := true, dispatcher := .looping }
  | woken (hdispatcher : s.dispatcher = .waiting) (hsignal : s.isSatisfied = true) :
      Moved s .wake { s with isSatisfied := false, dispatcher := .looping }
  | calledBack {k i : ℕ} {context : RequestContext} {response : NetworkResponse}
      {delivered : List (RequestContext × NetworkResponse)}
      (hentry : s.accepted[k]? = some ⟨i, context, false⟩)
      (hdelivered : delivered = s.delivered ++
        ([context].filter RequestContext.hasCallback).map fun context => (context, response)) :
      Moved s (.callback k response) { s with
        accepted := s.accepted.set k ⟨i, context, true⟩, delivered := delivered }
  | callbackReturned {k i : ℕ} {context : RequestContext}
      (hentry : s.accepted[k]? = some ⟨i, context, true⟩) :
      Moved s (.callbackReturns k) { s with
        queues := s.queues.modify i .lower, isSatisfied := true,
        accepted := s.accepted.eraseIdx k }
  | destroyed (hopen : s.stopThread = false) :
      Moved s .destroy { s with stopThread := true, isSatisfied := true }

theorem moved_send {request : NetworkRequest} {id : ℤ} {hasCallback : Bool}
    (hopen : s.stopThread = false) :
    Moved s (.send request id hasCallback) (send s ⟨request, id, hasCallback⟩).2 := by
  unfold send
  cases hselect : select s.queues request with
  | some i => exact .queued hopen hselect
  | none => exact .overloaded hopen hselect

theorem moved_cancelLooks {k i : ℕ} {id : ℤ} {pendingOnly : Bool}
    (hcall : s.cancels[k]? = some ⟨id, pendingOnly, .looking i⟩) :
    Moved s (.cancelLooks k) (cancelLooks s k ⟨id, pendingOnly, .looking i⟩ i) := by
  unfold cancelLooks
  cases hgroup : s.queues[i]? with
  | some group => exact .cancelLooked hcall hgroup rfl rfl
  | none =>
    cases pendingOnly with
    | true => exact .cancelMissed hcall hgroup rfl
    | false => exact .cancelMissed hcall hgroup rfl

theorem moved_visit {i : ℕ} {group : QuotaQueue} (hdispatcher : s.dispatcher = .visiting i)
    (hgroup : s.queues[i]? = some group) (ready : Bool) :
    Moved s (.visit ready) (visit s i group ready) := by
  unfold visit
  cases ready with
  | false => exact .unready hdispatcher hgroup
  | true =>
    cases hexceeded : group.isExceeded with
    | true => exact .passedOver hdispatcher hgroup hexceeded
    | false => exact .chose hdispatcher hgroup hexceeded

theorem moved_pop {i : ℕ} {group : QuotaQueue} (hdispatcher : s.dispatcher = .popping i)
    (hgroup : s.queues[i]? = some group) : Moved s .pop (pop s i group) := by
  unfold pop
  cases hpop : group.queue.pop with
  | some result => exact .popped hdispatcher hgroup hpop
  | none => exact .foundEmpty hdispatcher hgroup hpop

theorem moved_sendReturns {i : ℕ} {context : RequestContext} {code : ErrorCode}
    (hdispatcher : s.dispatcher = .sending i context (decide (code = .errorNone))) :
    Moved s (.sendReturns code) (sendReturns s i context code) := by
  cases code with
  | errorNone => exact .sendSucceeded hdispatcher
  | errorNotReady => exact .pushedBack hdispatcher
  | errorIo | errorNoConnection | errorInvalidRequest | errorFailedBindInterface
  | errorNetworkInterfaceOptionNotImplemented | errorNetworkOverload | errorFailedSetCaCert
  | errorCaCertOptionNotImplemented =>
    exact .refused hdispatcher (by decide) (by decide) rfl

theorem moved_step (h : step s event = some s') : Moved s event s' := by
  cases event with
  | send request id hasCallback =>
    obtain ⟨hopen, rfl⟩ : s.stopThread = false ∧ (send s ⟨request, id, hasCallback⟩).2 = s' := by
      simpa [step] using h
    exact moved_send hopen
  | cancel id pendingOnly =>
    simp only [step, Option.ite_none_left_eq_some, Option.some.injEq, Bool.not_eq_true] at h
    obtain ⟨hopen, rfl⟩ := h
    exact .cancelCalled hopen
  | cancelLooks k =>
    simp only [step] at h
    split at h
    · rename_i hcall
      cases h
      exact moved_cancelLooks hcall
    · cases h
  | cancelLocks k =>
    simp only [step] at h
    split at h
    · rename_i hcall
      obtain ⟨hfree, heq⟩ := Option.ite_none_right_eq_some.mp h
      cases heq
      exact .cancelLocked hcall hfree
    · cases h
  | cancelReturns k result =>
    simp only [step] at h
    split at h
    · rename_i hcall
      cases h
      exact .cancelReturned hcall
    · cases h
  | loop =>
    simp only [step] at h
    split at h
    · rename_i hdispatcher
      cases h
      by_cases hstop : s.stopThread = true
      · rw [if_pos hstop]
        exact .ended hdispatcher hstop
      · rw [if_neg hstop]
        exact .looped hdispatcher (Bool.eq_false_iff.mpr hstop)
    · cases h
  | visit ready =>
    simp only [step] at h
    split at h
    · rename_i i hdispatcher
      obtain ⟨group, hgroup, rfl⟩ := Option.map_eq_some_iff.mp h
      exact moved_visit hdispatcher hgroup ready
    · cases h
  | pop =>
    simp only [step] at h
    split at h
    · rename_i i hdispatcher
      obtain ⟨group, hgroup, rfl⟩ := Option.map_eq_some_iff.mp h
      exact moved_pop hdispatcher hgroup
    · cases h
  | startSend =>
    simp only [step] at h
    split at h
    · rename_i hdispatcher
      obtain ⟨hfree, heq⟩ := Option.ite_none_right_eq_some.mp h
      cases heq
      exact .sendStarted hdispatcher hfree
    · cases h
  | accept =>
    simp only [step] at h
    split at h
    · rename_i hdispatcher
      cases h
      exact .accepted hdispatcher
    · cases h
  | sendReturns code =>
    simp only [step] at h
    split at h
    · rename_i hdispatcher
      obtain ⟨haccepted, heq⟩ := Option.ite_none_right_eq_some.mp h
      cases heq
      exact moved_sendReturns (haccepted ▸ hdispatcher)
    · cases h
  | errorReported =>
    simp only [step] at h
    split at h
    · rename_i hdispatcher
      cases h
      exact .errorReported hdispatcher
    · cases h
  | wake =>
    simp only [step] at h
    split at h
    · rename_i hdispatcher
      obtain ⟨hsignal, heq⟩ := Option.ite_none_right_eq_some.mp h
      cases heq
      exact .woken hdispatcher hsignal
    · cases h
  | callback k response =>
    simp only [step] at h
    split at h
    · rename_i hentry
      cases h
      exact .calledBack hentry rfl
    · cases h
  | callbackReturns k =>
    simp only [step] at h
    split at h
    · rename_i hentry
      cases h
      exact .callbackReturned hentry
    · cases h
  | destroy =>
    simp only [step, Option.ite_none_left_eq_some, Option.some.injEq, Bool.not_eq_true] at h
    obtain ⟨hopen, rfl⟩ := h
    exact .destroyed hopen

/-! ## Quotas and counters

The quota of a group and its counter are looked up by the number of the group; what is in the
queue does not matter for them. -/

/-- The quota and the counter of a group. -/
def account (s : State) (i : ℕ) : Option (UInt64 × UInt64) :=
  s.queues[i]?.map fun group => (group.quota, group.counter)

theorem account_modify (f : QuotaQueue → QuotaQueue) (g : UInt64 → UInt64)
    (hf : ∀ group, (f group).quota = group.quota ∧ (f group).counter = g group.counter)
    (s : State) (j i : ℕ) :
    account { s with queues := s.queues.modify j f } i =
      (account s i).map fun pair => (pair.1, if j = i then g pair.2 else pair.2) := by
  simp only [account, List.getElem?_modify, Option.map_map]
  cases s.queues[i]? with
  | none => rfl
  | some group =>
    by_cases hij : j = i
    · simp [hij, hf group]
    · simp [hij]

/-- A request that is pushed changes no counter. -/
theorem account_push (context : RequestContext) (s : State) (j : ℕ) :
    account { s with queues := s.queues.modify j (.push context) } = account s := by
  funext i
  rw [account_modify (.push context) id (fun group => ⟨rfl, rfl⟩) s j i]
  simp

/-- Nor does a change of what is in a queue. -/
theorem account_set {i : ℕ} {group : QuotaQueue} (hgroup : s.queues[i]? = some group)
    (queue : NetworkRequestPriorityQueue) :
    account { s with queues := s.queues.set i { group with queue := queue } } = account s := by
  funext j
  simp only [account, getElem?_set_of_some hgroup]
  split
  · next hji => rw [hji, hgroup, Option.map_some, Option.map_some]
  · rfl

/-- The counter of a group below its quota can be raised. -/
theorem toNat_raise {quota counter : UInt64} (h : counter < quota) :
    (counter + 1).toNat = counter.toNat + 1 ∧ counter + 1 ≤ quota := by
  have hlt := UInt64.lt_iff_toNat_lt.mp h
  have hquota := quota.toNat_lt
  have htoNat : (counter + 1).toNat = counter.toNat + 1 := by
    rw [UInt64.toNat_add]
    exact Nat.mod_eq_of_lt (by simp; omega)
  refine ⟨htoNat, UInt64.le_iff_toNat_le.mpr ?_⟩
  omega

/-- A counter that is not zero can be lowered. -/
theorem toNat_lower {quota counter : UInt64} {n : ℕ} (h : counter.toNat = n + 1)
    (hle : counter ≤ quota) : (counter - 1).toNat = n ∧ counter - 1 < quota := by
  have hquota := UInt64.le_iff_toNat_le.mp hle
  have hone : (1 : UInt64) ≤ counter := UInt64.le_iff_toNat_le.mpr (by simp; omega)
  have htoNat : (counter - 1).toNat = n := by
    rw [UInt64.toNat_sub_of_le _ _ hone]
    simp [h]
  refine ⟨htoNat, UInt64.lt_iff_toNat_lt.mpr ?_⟩
  omega

/-! ## The ledger -/

/-- What the dispatcher has counted for a group and the protocol has not accepted. -/
def owed : Dispatcher → ℕ → ℕ
  | .sending i _ false, j => if i = j then 1 else 0
  | .reporting i _, j => if i = j then 1 else 0
  | _, _ => 0

/-- The group the dispatcher has found to be below its quota. -/
def chosen : Dispatcher → Option ℕ
  | .popping i => some i
  | .holding i _ => some i
  | _ => none

/-- How often the protocol was not ready for a request of a group. -/
def notReady (s : State) (i : ℕ) : ℕ := s.answers.count (i, .errorNotReady)

/-- What is in flight, what the dispatcher owes and what was lost. -/
def total (s : State) (i : ℕ) : ℕ := s.inFlight i + owed s.dispatcher i + notReady s i

/-- **The invariant.** The counter of every group is its total and keeps to the quota, and there
is room for the request that the dispatcher is about to send. -/
structure Ledger (s : State) : Prop where
  balance : ∀ i quota counter, account s i = some (quota, counter) → counter.toNat = total s i
  bound : ∀ i quota counter, account s i = some (quota, counter) → counter ≤ quota
  room : ∀ i quota counter, account s i = some (quota, counter) →
    chosen s.dispatcher = some i → counter < quota

theorem ledger_new (defaultQuotaGroupSize : UInt64)
    (queueConfigs : List (UInt64 × (NetworkRequest → Bool))) :
    Ledger (new defaultQuotaGroupSize queueConfigs) := by
  have hcounter : ∀ i quota counter,
      account (new defaultQuotaGroupSize queueConfigs) i = some (quota, counter) → counter = 0 := by
    intro i quota counter haccount
    obtain ⟨group, hget, hpair⟩ := Option.map_eq_some_iff.mp haccount
    cases hpair
    have hmem := List.mem_of_getElem? hget
    simp only [new, List.mem_cons, List.mem_map] at hmem
    rcases hmem with rfl | ⟨config, -, rfl⟩
    · rfl
    · rfl
  constructor
  · intro i quota counter haccount
    rw [hcounter i quota counter haccount]
    rfl
  · intro i quota counter haccount
    rw [hcounter i quota counter haccount]
    exact UInt64.zero_le
  · intro i quota counter haccount hchosen
    cases hchosen

/-- A step that changes no counter keeps the totals. -/
theorem Ledger.kept (h : Ledger s) (haccount : account s' = account s)
    (htotal : ∀ i, total s' i = total s i)
    (hchosen : ∀ i quota counter, account s i = some (quota, counter) →
      chosen s'.dispatcher = some i → chosen s.dispatcher = some i ∨ counter < quota) :
    Ledger s' := by
  constructor
  · intro i quota counter hget
    rw [haccount] at hget
    rw [htotal]
    exact h.balance i quota counter hget
  · intro i quota counter hget
    rw [haccount] at hget
    exact h.bound i quota counter hget
  · intro i quota counter hget hnow
    rw [haccount] at hget
    rcases hchosen i quota counter hget hnow with hbefore | hlt
    · exact h.room i quota counter hget hbefore
    · exact hlt

/-- A step that raises the counter of the group the dispatcher has chosen. -/
theorem Ledger.raise {j : ℕ} (h : Ledger s) (hj : chosen s.dispatcher = some j)
    (haccount : ∀ i, account s' i =
      (account s i).map fun pair => (pair.1, if j = i then pair.2 + 1 else pair.2))
    (htotal : ∀ i, total s' i = total s i + if j = i then 1 else 0)
    (hchosen : chosen s'.dispatcher = none) : Ledger s' := by
  have hentry : ∀ i quota counter, account s' i = some (quota, counter) →
      counter.toNat = total s' i ∧ counter ≤ quota := by
    intro i quota counter hget
    rw [haccount] at hget
    obtain ⟨⟨quota', counter'⟩, hbefore, hpair⟩ := Option.map_eq_some_iff.mp hget
    cases hpair
    have hbalance := h.balance i quota' counter' hbefore
    have hbound := h.bound i quota' counter' hbefore
    rw [htotal]
    by_cases hij : j = i
    · subst hij
      obtain ⟨hraised, hle⟩ := toNat_raise (h.room j quota' counter' hbefore hj)
      simp only [if_true]
      exact ⟨by omega, hle⟩
    · simp only [hij, if_false]
      exact ⟨hbalance, hbound⟩
  refine ⟨fun i quota counter hget => (hentry i quota counter hget).1,
    fun i quota counter hget => (hentry i quota counter hget).2, ?_⟩
  intro i quota counter _ hnow
  rw [hchosen] at hnow
  cases hnow

/-- A step that lowers the counter of a group with something in its total. -/
theorem Ledger.lower {j : ℕ} (h : Ledger s)
    (haccount : ∀ i, account s' i =
      (account s i).map fun pair => (pair.1, if j = i then pair.2 - 1 else pair.2))
    (htotal : ∀ i, total s i = total s' i + if j = i then 1 else 0)
    (hchosen : ∀ i, chosen s'.dispatcher = some i → chosen s.dispatcher = some i) :
    Ledger s' := by
  have hentry : ∀ i quota counter, account s' i = some (quota, counter) →
      counter.toNat = total s' i ∧ counter ≤ quota ∧
        (chosen s'.dispatcher = some i → counter < quota) := by
    intro i quota counter hget
    rw [haccount] at hget
    obtain ⟨⟨quota', counter'⟩, hbefore, hpair⟩ := Option.map_eq_some_iff.mp hget
    cases hpair
    have hbalance := h.balance i quota' counter' hbefore
    have hbound := h.bound i quota' counter' hbefore
    rw [htotal] at hbalance
    by_cases hij : j = i
    · simp only [hij, if_true] at hbalance ⊢
      obtain ⟨hlowered, hlt⟩ := toNat_lower hbalance hbound
      exact ⟨hlowered, UInt64.le_of_lt hlt, fun _ => hlt⟩
    · simp only [hij, if_false] at hbalance ⊢
      exact ⟨hbalance, hbound, fun hnow => h.room i quota' counter' hbefore (hchosen i hnow)⟩
  exact ⟨fun i quota counter hget => (hentry i quota counter hget).1,
    fun i quota counter hget => (hentry i quota counter hget).2.1,
    fun i quota counter hget => (hentry i quota counter hget).2.2⟩

/-! ## Steps and runs -/

theorem Ledger.rest (h : Ledger s) (haccount : account s' = account s)
    (hrest : s'.accepted = s.accepted ∧ s'.answers = s.answers ∧ s'.dispatcher = s.dispatcher) :
    Ledger s' := by
  obtain ⟨haccepted, hanswers, hdispatcher⟩ := hrest
  refine h.kept haccount ?_ ?_
  · intro i
    rw [total, total, State.inFlight, notReady, haccepted, hanswers, hdispatcher]
    rfl
  · intro i quota counter _ hnow
    rw [hdispatcher] at hnow
    exact Or.inl hnow

/-- The dispatcher goes on without a change of a counter. -/
theorem Ledger.redirect (h : Ledger s) {d : Dispatcher} (howed : owed d = owed s.dispatcher)
    (hchosen : ∀ i quota counter, account s i = some (quota, counter) →
      chosen d = some i → chosen s.dispatcher = some i ∨ counter < quota) :
    Ledger { s with dispatcher := d } := by
  refine h.kept rfl ?_ hchosen
  intro i
  rw [total, total, howed]
  rfl

theorem next_cases (s : State) (i : ℕ) : s.next i = .visiting (i + 1) ∨ s.next i = .waiting := by
  unfold State.next
  split
  · exact Or.inl rfl
  · exact Or.inr rfl

/-- A dispatcher that owes nothing goes on to the next group, or waits. -/
theorem Ledger.passOver (h : Ledger s) (howed : owed .looping = owed s.dispatcher) (i : ℕ) :
    Ledger { s with dispatcher := s.next i } := by
  rcases next_cases s i with hnext | hnext
  · rw [hnext]
    exact h.redirect howed fun j quota counter _ hnow => nomatch hnow
  · rw [hnext]
    exact h.redirect howed fun j quota counter _ hnow => nomatch hnow

/-- A request that is accepted is in flight and no longer owed. -/
theorem Ledger.accept {i : ℕ} {context : RequestContext} (h : Ledger s)
    (hdispatcher : s.dispatcher = .sending i context false) :
    Ledger { s with
      dispatcher := .sending i context true, accepted := s.accepted ++ [⟨i, context, false⟩] } := by
  refine h.kept rfl ?_ fun j quota counter _ hnow => nomatch hnow
  intro j
  simp only [total, State.inFlight, notReady, hdispatcher, owed, List.countP_append,
    List.countP_singleton, beq_iff_eq]
  omega

/-- What `protocol_->Send` has returned is written down, and the dispatcher goes on. -/
theorem Ledger.answer {i : ℕ} {code : ErrorCode} {d : Dispatcher} (h : Ledger s)
    (howed : ∀ j, owed d j + (if (i, code) = (j, ErrorCode.errorNotReady) then 1 else 0) =
      owed s.dispatcher j) (hchosen : chosen d = none) :
    Ledger { s with answers := s.answers ++ [(i, code)], dispatcher := d } := by
  refine h.kept rfl ?_ ?_
  · intro j
    simp only [total, State.inFlight, notReady, List.count_append, List.count_singleton,
      beq_iff_eq, ← howed j]
    omega
  · intro j quota counter _ hnow
    rw [hchosen] at hnow
    cases hnow

/-- The call of a callback does not end it. -/
theorem inFlight_set {k i : ℕ} {context : RequestContext}
    (hentry : s.accepted[k]? = some ⟨i, context, false⟩) (j : ℕ) :
    (s.accepted.set k ⟨i, context, true⟩).countP (fun request => request.group == j) =
      s.inFlight j := by
  have hcount := countP_set_of_some (fun request => request.group == j) hentry ⟨i, context, true⟩
  exact Nat.add_right_cancel hcount

theorem inFlight_eraseIdx {k i : ℕ} {context : RequestContext} {calledBack : Bool}
    (hentry : s.accepted[k]? = some ⟨i, context, calledBack⟩) (j : ℕ) :
    s.inFlight j = (s.accepted.eraseIdx k).countP (fun request => request.group == j) +
      if i = j then 1 else 0 := by
  have hcount := countP_eraseIdx_of_some (fun request => request.group == j) hentry
  simp only [toNat_eq_ite, beq_iff_eq] at hcount
  exact hcount

/-- **Step.** A request that goes back into its queue is neither in flight nor owed, and its
group has lost one. -/
theorem Ledger.step (h : Ledger s)
    (hstep : NetworkRequestPriorityQueueDecorator.step s event = some s') : Ledger s' := by
  cases moved_step hstep with
  | queued => exact h.rest (account_push _ s _) ⟨rfl, rfl, rfl⟩
  | cancelLooked hcall hgroup => exact h.rest (account_set hgroup _) ⟨rfl, rfl, rfl⟩
  | overloaded | cancelCalled | cancelMissed | cancelLocked | cancelReturned | destroyed =>
    exact h.rest rfl ⟨rfl, rfl, rfl⟩
  | ended hdispatcher | looped hdispatcher | unready hdispatcher =>
    refine h.redirect ?_ fun j quota counter _ hnow => nomatch hnow
    rw [hdispatcher]
    rfl
  | woken hdispatcher hsignal =>
    have hsignalled : Ledger { s with isSatisfied := false } := h.rest rfl ⟨rfl, rfl, rfl⟩
    refine hsignalled.redirect ?_ fun j quota counter _ hnow => nomatch hnow
    change _ = owed s.dispatcher
    rw [hdispatcher]
    rfl
  | passedOver hdispatcher | foundEmpty hdispatcher =>
    refine h.passOver ?_ _
    rw [hdispatcher]
    rfl
  | chose hdispatcher hgroup hroom =>
    refine h.redirect (by rw [hdispatcher]; rfl) fun j quota counter haccount hnow => Or.inr ?_
    -- the group was found below its quota
    cases hnow
    rw [account, hgroup] at haccount
    cases haccount
    simpa [QuotaQueue.isExceeded] using hroom
  | popped hdispatcher hgroup hpop =>
    refine (h.rest (account_set hgroup _) ⟨rfl, rfl, rfl⟩).redirect ?_
      fun j quota counter _ hnow => Or.inl ?_
    · change _ = owed s.dispatcher
      rw [hdispatcher]
      rfl
    · change chosen s.dispatcher = some j
      rw [hdispatcher]
      exact hnow
  | sendStarted hdispatcher hfree =>
    rename_i j context
    refine h.raise (by rw [hdispatcher]; rfl)
      (account_modify .raise (· + 1) (fun group => ⟨rfl, rfl⟩) s j) (fun i => ?_) rfl
    simp only [total, State.inFlight, notReady, hdispatcher, owed]
    omega
  | accepted hdispatcher => exact h.accept hdispatcher
  | sendSucceeded hdispatcher =>
    refine h.answer (fun j => ?_) rfl
    simp [hdispatcher, owed]
  | pushedBack hdispatcher =>
    rename_i i context
    have hanswered : Ledger { s with
        answers := s.answers ++ [(i, .errorNotReady)], dispatcher := .looping } := by
      refine h.answer (fun j => ?_) rfl
      simp [hdispatcher, owed]
    exact hanswered.rest (account_push context _ i) ⟨rfl, rfl, rfl⟩
  | refused hdispatcher hnone hready =>
    rename_i i context code delivered _
    have hanswered : Ledger { s with
        answers := s.answers ++ [(i, code)], dispatcher := .reporting i context } := by
      refine h.answer (fun j => ?_) rfl
      simp [hdispatcher, owed, hready]
    exact hanswered.rest rfl ⟨rfl, rfl, rfl⟩
  | errorReported hdispatcher =>
    rename_i j context
    refine h.lower (account_modify .lower (· - 1) (fun group => ⟨rfl, rfl⟩) s j) (fun i => ?_)
      fun i hnow => nomatch hnow
    simp only [total, State.inFlight, notReady, hdispatcher, owed]
    omega
  | calledBack hentry =>
    refine h.kept rfl (fun j => ?_) fun j quota counter _ hnow => Or.inl hnow
    rw [total, total, ← inFlight_set hentry j]
    rfl
  | callbackReturned hentry =>
    rename_i k j context
    refine h.lower (account_modify .lower (· - 1) (fun group => ⟨rfl, rfl⟩) s j) (fun i => ?_)
      fun i hnow => hnow
    have hflight := inFlight_eraseIdx hentry i
    simp only [total, State.inFlight, notReady] at hflight ⊢
    omega

/-- The group the dispatcher is busy with. -/
def busyWith : Dispatcher → Option ℕ
  | .popping i => some i
  | .holding i _ => some i
  | .sending i _ _ => some i
  | .reporting i _ => some i
  | _ => none

/-- The groups stay. -/
theorem length_step (hstep : step s event = some s') : s'.queues.length = s.queues.length := by
  cases moved_step hstep with
  | queued | cancelLooked | popped | sendStarted | pushedBack | errorReported
  | callbackReturned => simp
  | overloaded | cancelCalled | cancelMissed | cancelLocked | cancelReturned | ended | looped
  | unready | passedOver | chose | foundEmpty | accepted | sendSucceeded | refused | woken
  | calledBack | destroyed => rfl

/-- The dispatcher takes up a group there is. -/
theorem busyWith_step {i : ℕ} (hstep : step s event = some s')
    (hnow : busyWith s'.dispatcher = some i) :
    busyWith s.dispatcher = some i ∨ i < s.queues.length := by
  cases moved_step hstep with
  | queued | overloaded | cancelCalled | cancelLooked | cancelMissed | cancelLocked
  | cancelReturned | calledBack | callbackReturned | destroyed => exact Or.inl hnow
  | ended | looped | unready | sendSucceeded | pushedBack | errorReported | woken => cases hnow
  | passedOver | foundEmpty =>
    rename_i j group _ _ _
    rcases next_cases s j with hnext | hnext
    · rw [hnext] at hnow
      cases hnow
    · rw [hnext] at hnow
      cases hnow
  | chose hdispatcher hgroup | popped hdispatcher hgroup =>
    cases hnow
    exact Or.inr (List.getElem?_eq_some_iff.mp hgroup).1
  | sendStarted hdispatcher | accepted hdispatcher | refused hdispatcher =>
    rw [hdispatcher]
    exact Or.inl hnow

/-- The dispatcher is busy with a group there is. -/
def Located (s : State) : Prop := ∀ i, busyWith s.dispatcher = some i → i < s.queues.length

theorem Located.step (h : Located s)
    (hstep : NetworkRequestPriorityQueueDecorator.step s event = some s') : Located s' := by
  intro i hnow
  rw [length_step hstep]
  rcases busyWith_step hstep hnow with hbefore | hlt
  · exact h i hbefore
  · exact hlt

theorem owed_of_isBetweenSteps (h : s.isBetweenSteps = true) (i : ℕ) : owed s.dispatcher i = 0 := by
  cases hdispatcher : s.dispatcher with
  | sending j context accepted => simp [State.isBetweenSteps, hdispatcher] at h
  | reporting j context => simp [State.isBetweenSteps, hdispatcher] at h
  | looping | visiting | popping | holding | waiting | stopped => rfl

/-- The protocol was not ready only if it has said so. -/
theorem answers_step {i : ℕ} (hstep : step s event = some s')
    (hmem : (i, ErrorCode.errorNotReady) ∈ s'.answers) :
    (i, ErrorCode.errorNotReady) ∈ s.answers ∨ event = .sendReturns .errorNotReady := by
  cases moved_step hstep with
  | pushedBack | refused =>
    rcases List.mem_append.mp hmem with hbefore | hnew
    · exact Or.inl hbefore
    · cases List.mem_singleton.mp hnew
      exact Or.inr rfl
  | sendSucceeded =>
    rcases List.mem_append.mp hmem with hbefore | hnew
    · exact Or.inl hbefore
    · cases List.mem_singleton.mp hnew
  | queued | overloaded | cancelCalled | cancelLooked | cancelMissed | cancelLocked
  | cancelReturned | ended | looped | unready | passedOver | chose | popped | foundEmpty
  | sendStarted | accepted | errorReported | woken | calledBack | callbackReturned
  | destroyed => exact Or.inl hmem

section Runs

variable {defaultQuotaGroupSize : UInt64} {queueConfigs : List (UInt64 × (NetworkRequest → Bool))}
  {events : List Event}

theorem ledger_run (hrun : runFrom step (new defaultQuotaGroupSize queueConfigs) events = some s) :
    Ledger s :=
  invariant_of_steps Ledger (fun _ _ _ h hstep => h.step hstep) hrun
    (ledger_new defaultQuotaGroupSize queueConfigs)

theorem located_run (hrun : runFrom step (new defaultQuotaGroupSize queueConfigs) events = some s) :
    Located s :=
  invariant_of_steps Located (fun _ _ _ h hstep => h.step hstep) hrun fun _ hbusy => nomatch hbusy

/-- **Run.** Between steps the counter of a group is the number of its requests in flight plus
the number of times the protocol was not ready for one of them. -/
theorem counter_run {i : ℕ} {group : QuotaQueue}
    (hrun : runFrom step (new defaultQuotaGroupSize queueConfigs) events = some s)
    (hgroup : s.queues[i]? = some group) (hbetween : s.isBetweenSteps = true) :
    group.counter.toNat = s.inFlight i + notReady s i := by
  have hbalance := (ledger_run hrun).balance i group.quota group.counter (by simp [account, hgroup])
  rw [hbalance, total, owed_of_isBetweenSteps hbetween, Nat.add_zero]

theorem notReady_run {i : ℕ}
    (hrun : runFrom step (new defaultQuotaGroupSize queueConfigs) events = some s)
    (hevents : .sendReturns .errorNotReady ∉ events) : notReady s i = 0 := by
  apply List.count_eq_zero_of_not_mem
  intro hmem
  have hcaused := caused_runFrom (P := fun s => (i, ErrorCode.errorNotReady) ∈ s.answers)
    (C := fun event => event = .sendReturns .errorNotReady)
    (fun _ _ _ hstep hmem => answers_step hstep hmem) hrun hmem
  rcases hcaused with hnew | ⟨event, hevent, rfl⟩
  · cases hnew
  · exact hevents hevent

/-- What the accounting should say in a state: no counter exceeds its quota, and between steps
the counter of a group is the number of its requests in flight, so that a group that is passed
over has as many requests in flight as its quota allows. -/
def QuotaAccounting (s : State) : Prop :=
  ∀ i group, s.queues[i]? = some group → group.counter ≤ group.quota ∧
    (s.isBetweenSteps = true → group.counter.toNat = s.inFlight i ∧
      (group.isExceeded = true → group.quota.toNat ≤ s.inFlight i))

/-- A request that goes back into its queue is counted for ever. -/
theorem not_accounted_of_notReady
    (hrun : runFrom step (new defaultQuotaGroupSize queueConfigs) events = some s)
    (hstep : step s (.sendReturns .errorNotReady) = some s') : ¬ QuotaAccounting s' := by
  intro haccounting
  have hrun' := runFrom_concat.mpr ⟨s, hrun, hstep⟩
  have hlength := length_step hstep
  have hlocated := located_run hrun
  cases moved_step hstep with
  | refused _ _ hready => exact absurd rfl hready
  | pushedBack hdispatcher =>
    rename_i i context
    have hlt := hlength.symm ▸ hlocated i (by rw [hdispatcher]; rfl)
    have hgroup := List.getElem?_eq_getElem hlt
    have hcounter := counter_run hrun' hgroup rfl
    have hlost : 0 < (s.answers ++ [(i, ErrorCode.errorNotReady)]).count (i, .errorNotReady) :=
      List.count_pos_iff.mpr (by simp)
    have hequal := ((haccounting i _ hgroup).2 rfl).1
    exact hlost.ne' (Nat.left_eq_add.mp (hequal.symm.trans hcounter))

end Runs

/-- **When the accounting of quotas is right.** For every configuration of groups and every run
of the decorator, with any interleaving of calls, steps of the dispatcher and callbacks: the
accounting is right in all states of the run iff `protocol_->Send` never returns `ErrorNotReady`
in it.
SOURCE: NetworkRequestPriorityQueueDecorator.cpp:57-97, 129-190, 210-258 -/
theorem quota_accounting_iff (defaultQuotaGroupSize : UInt64)
    (queueConfigs : List (UInt64 × (NetworkRequest → Bool))) (events : List Event) (s : State)
    (hrun : runFrom step (new defaultQuotaGroupSize queueConfigs) events = some s) :
    (∀ before, before <+: events → ∀ s',
        runFrom step (new defaultQuotaGroupSize queueConfigs) before = some s' →
        QuotaAccounting s') ↔
      .sendReturns .errorNotReady ∉ events := by
  constructor
  · intro haccounting hmem
    obtain ⟨earlier, later, rfl⟩ := List.append_of_mem hmem
    rw [runFrom_append] at hrun
    obtain ⟨m, hearlier, hlater⟩ := Option.bind_eq_some_iff.mp hrun
    obtain ⟨m', hstep, -⟩ := runFrom_cons.mp hlater
    refine not_accounted_of_notReady hearlier hstep ?_
    refine haccounting (earlier ++ [.sendReturns .errorNotReady]) ⟨later, by simp⟩ m' ?_
    exact runFrom_concat.mpr ⟨m, hearlier, hstep⟩
  · intro hnever before hbefore s' hrun' i group hgroup
    have haccount : account s' i = some (group.quota, group.counter) := by simp [account, hgroup]
    have hnone : notReady s' i = 0 :=
      notReady_run hrun' fun hmem => hnever (hbefore.subset hmem)
    refine ⟨(ledger_run hrun').bound i _ _ haccount, fun hbetween => ?_⟩
    have hcounter := counter_run hrun' hgroup hbetween
    rw [hnone, Nat.add_zero] at hcounter
    refine ⟨hcounter, fun hexceeded => ?_⟩
    rw [← hcounter]
    exact UInt64.le_iff_toNat_le.mp (of_decide_eq_true hexceeded)

def exampleRequest : NetworkRequest := .new "http://example".toList 0 2 .GET

/-- With a quota of one: a request that is refused with an error, and one that is answered before
`Send` returns. -/
theorem refused_then_answered :
    let events : List Event := [.send exampleRequest 1 true, .send exampleRequest 2 true, .loop,
      .visit true, .pop, .startSend, .sendReturns .errorIo, .errorReported, .loop, .visit true,
      .pop, .startSend, .accept, .callback 0 (.simple 2 200 []), .callbackReturns 0,
      .sendReturns .errorNone]
    ∃ s, runFrom step (new 1 []) events = some s ∧
      s.delivered.map (fun entry => (entry.1.id, entry.2.status)) = [(1, -1), (2, 200)] ∧
      QuotaAccounting s := by
  intro events
  refine ⟨_, rfl, rfl, ?_⟩
  exact (quota_accounting_iff 1 [] events _ rfl).mpr (by simp [events]) events List.prefix_rfl _ rfl

/-- With a quota of one, after the protocol was not ready once: nothing is in flight and one
request is in the queue, but the counter has reached the quota, and the dispatcher waits for a
signal that nobody is there to set. -/
theorem not_ready_blocks_group :
    ∃ s group, runFrom step (new 1 []) [.send exampleRequest 1 true, .loop, .visit true, .pop,
        .startSend, .sendReturns .errorNotReady, .loop, .visit true, .wake, .loop,
        .visit true] = some s ∧
      s.queues[0]? = some group ∧ group.quota = 1 ∧ group.counter = 1 ∧
      group.isExceeded = true ∧ s.inFlight 0 = 0 ∧ group.queue.size = 1 ∧
      s.isBetweenSteps = true ∧ s.dispatcher = .waiting ∧ s.isSatisfied = false ∧
      ¬ QuotaAccounting s := by
  refine ⟨_, _, rfl, rfl, rfl, rfl, rfl, rfl, rfl, rfl, rfl, rfl, ?_⟩
  intro haccounting
  have hcounter := ((haccounting 0 _ rfl).2 rfl).1
  cases hcounter

end OlpEdgeSdk.Analysis.Decorator

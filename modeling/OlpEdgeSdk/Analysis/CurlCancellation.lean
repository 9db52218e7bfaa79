import OlpEdgeSdk.Analysis.CurlTransitions

/-!
# Cancelled requests of `NetworkCurl` and the others

Events, rejected handles and calls of `Send` tell slots, not requests, and are looked at only for
slots that are in use. They are about the request in the slot (`Clean`) as long as `GetHandle`
takes no slot that something queued is still for, and the handles that are looked for as lost are
with curl (`Fresh`). Then each attempt of a request is in one place: in its `Send`, in an event,
with curl, among the rejected handles, or in `CompleteMessage` (`attemptsOpen`), and a request that
is never cancelled is added once for each attempt and gets the outcome of its own transfer.

SOURCE: NetworkCurl.cpp:591-683, NetworkCurl.cpp:805-1193, NetworkProtocolCurl.cpp:989-1079
-/

set_option autoImplicit false

namespace OlpEdgeSdk.Analysis.CurlCancellation

open OlpEdgeSdk.Base OlpEdgeSdk.Model OlpEdgeSdk.Model.NetworkCurl
open OlpEdgeSdk.Analysis.CurlTransitions

/-! ## Whose outcome it is -/

/-- The request that a cause is about. -/
def requestOf : Cause → Option ℕ
  | .cancelEvent request => request
  | .transfer message => message.addition.request
  | .addition request => request
  | .lost request => request
  | .offline => none

def isCancelEvent : Cause → Bool
  | .cancelEvent _ => true
  | _ => false

/-- A cause that a request has of itself: its transfer has ended, curl has not taken its handle,
or its transfer is lost. -/
def Own (n : ℕ) : Cause → Prop
  | .transfer message => message.addition.request = some n
  | .addition request => request = some n
  | .lost request => request = some n
  | _ => False

/-- A status that a request has of itself. -/
def OwnOutcome (n : ℕ) (cause : Cause) (status : ℤ) : Prop :=
  match cause with
  | .transfer message => message.addition.request = some n ∧
      ∃ handle, status = attemptStatus handle message.outcome.result message.outcome.httpStatus
        message.outcome.tookLong
  | .addition request => request = some n ∧ status = ErrorCode.IO_ERROR.value
  | .lost request => request = some n ∧ status = ErrorCode.TIMEOUT_ERROR.value
  | _ => False

theorem own_of_request {n : ℕ} {cause : Cause} (hrequest : requestOf cause = some n)
    (hcause : isCancelEvent cause = false) : Own n cause := by
  cases cause with
  | cancelEvent request => cases hcause
  | transfer message => exact hrequest
  | addition request => exact hrequest
  | lost request => exact hrequest
  | offline => cases hrequest

/-- The outcome that `CompleteMessage` is called with for a cause. -/
def Matches : Cause → Outcome → Prop
  | .transfer message, outcome => outcome = message.outcome
  | .addition _, outcome => outcome = ⟨.COULDNT_CONNECT, 0, false⟩
  | _, outcome => outcome = ⟨.OPERATION_TIMEDOUT, 0, false⟩

theorem ownOutcome_of_matches {n : ℕ} {cause : Cause} {outcome : Outcome}
    (hmatches : Matches cause outcome) (hrequest : requestOf cause = some n)
    (hcause : isCancelEvent cause = false) (handle : RequestHandle) :
    OwnOutcome n cause
      (attemptStatus handle outcome.result outcome.httpStatus outcome.tookLong) := by
  cases cause with
  | cancelEvent request => cases hcause
  | transfer message =>
    cases hmatches
    exact ⟨hrequest, handle, rfl⟩
  | addition request =>
    cases hmatches
    exact ⟨hrequest, rfl⟩
  | lost request =>
    cases hmatches
    exact ⟨hrequest, rfl⟩
  | offline => cases hrequest

/-- A cancelled request is not tried again. -/
theorem isCancelEvent_of_retry {cause : Cause} {outcome : Outcome}
    (hmatches : Matches cause outcome) {handle : RequestHandle}
    (hretry : isRetryStatus (attemptStatus handle outcome.result outcome.httpStatus
      outcome.tookLong) = true) : isCancelEvent cause = false := by
  cases cause with
  | cancelEvent request =>
    cases hmatches
    cases hretry
  | _ => rfl

/-! ## Open attempts -/

def isSendOf (n : ℕ) (event : EventInfo) : Bool :=
  decide (event.type = .SEND_EVENT) && decide (event.request = some n)

def isOf (n : ℕ) (addition : Addition) : Bool := decide (addition.request = some n)

def isAddOf (n : ℕ) : Effect → Bool
  | .added holder _ _ => decide (holder = some n)
  | _ => false

def isAttemptOf (n : ℕ) : Effect → Bool
  | .queued request => decide (request = some n)
  | _ => false

/-- The request whose attempt `CompleteMessage` is about to end. -/
def attemptIn (s : CurlState) : Option Completing → Option ℕ
  | some (.called _ _ cause) => if isCancelEvent cause then none else requestOf cause
  | some (.found _ _ _ cause) => if isCancelEvent cause then none else requestOf cause
  | some (.retrying slot) => (s.handles slot).callback
  | some (.releasing _ _ _ _ cause) => if isCancelEvent cause then none else requestOf cause
  | _ => none

/-- The events that are queued for attempts of a request. -/
def sendEvents (s : CurlState) (n : ℕ) : ℕ := s.events.countP (isSendOf n)

/-- The attempts of a request that have not ended, as far as the worker and `Send` go. -/
def attemptsOpen (s : CurlState) (n : ℕ) : ℕ :=
  (slotOf (s.sends n)).isSome.toNat + sendEvents s n + s.multi.added.countP (isOf n) +
    (rejectedIn s.phase).countP (isOf n) + (decide (attemptIn s s.completing = some n)).toNat

/-- How often a request has been given to curl. -/
def additions (s : CurlState) (n : ℕ) : ℕ := s.history.countP (isAddOf n)

/-- How often an event was queued to give a request to curl: by `Send`, and for each retry. -/
def attempts (s : CurlState) (n : ℕ) : ℕ := s.history.countP (isAttemptOf n)

def NotCancelled (s : CurlState) (n : ℕ) : Prop := Effect.cancelled (some n) ∉ s.history

instance (s : CurlState) (n : ℕ) : Decidable (NotCancelled s n) :=
  inferInstanceAs (Decidable (Effect.cancelled (some n) ∉ s.history))

/-- What was done to a request, it had of itself. -/
def OwnEffect (n : ℕ) : Effect → Prop
  | .added holder event _ => holder = some n → event = some n
  | .removed holder cause => holder = some n → Own n cause
  | .answered request cause _ status => request = n → OwnOutcome n cause status
  | _ => True

/-! ## Reused slots -/

/-- `Deinitialize` is not called; `GetHandle` takes no slot that an event, a rejected handle, a
call of `Send` or of `CompleteMessage` is still for; and what is looked for as lost is with
curl. -/
def Fresh (s : CurlState) : CurlEvent → Prop
  | CurlEvent.deinitialize => False
  | .getHandle _ _ => ∀ slot, s.freeSlot = some slot →
      (∀ event ∈ s.events, event.handle ≠ slot) ∧
      (∀ addition ∈ rejectedIn s.phase, addition.slot ≠ slot) ∧
      (∀ n, slotOf (s.sends n) ≠ some slot) ∧
      ∀ outcome cause, s.completing ≠ some (.called slot outcome cause)
  | .worker (.findLost lost) => ∀ slot, (s.handles slot).inUse = true → lost slot = true →
      (s.multi.find slot).isSome = true
  | _ => True

/-- Curl does not have the handle of a slot. -/
def Gone (s : CurlState) (slot : Slot) : Prop := ∀ addition ∈ s.multi.added, addition.slot ≠ slot

/-- The event of a cause was queued by a `Cancel`. -/
def CancelKnown (s : CurlState) : Cause → Prop
  | .cancelEvent request => Effect.cancelled request ∈ s.history
  | _ => True

/-- A slot holds a request. -/
def HeldBy (s : CurlState) (slot : Slot) (n : ℕ) : Prop :=
  (s.handles slot).inUse = true ∧ (s.handles slot).callback = some n

/-- `CompleteMessage` is about the request in its slot. -/
def CompletingClean (s : CurlState) : Prop :=
  match s.completing with
  | some (.called slot outcome cause) => Gone s slot ∧ CancelKnown s cause ∧ Matches cause outcome ∧
      ((s.handles slot).inUse = true → requestOf cause = (s.handles slot).callback)
  | some (.found slot callback outcome cause) => Gone s slot ∧ CancelKnown s cause ∧
      Matches cause outcome ∧ HeldBy s slot callback ∧ requestOf cause = some callback
  | some (.retrying slot) => (s.handles slot).inUse = true
  | some (.releasing slot callback _ status cause) => Gone s slot ∧ CancelKnown s cause ∧
      HeldBy s slot callback ∧ requestOf cause = some callback ∧
      (NotCancelled s callback → OwnOutcome callback cause status)
  | some (.answering callback _ status cause) =>
      NotCancelled s callback → OwnOutcome callback cause status
  | _ => True

/-- What is queued for a slot in use is for the request in it. -/
structure Clean (s : CurlState) : Prop where
  held : ∀ slot, (s.handles slot).inUse = true →
    ∃ n, (s.handles slot).callback = some n ∧ n ∈ taken s
  before : ∀ n, isBefore (s.sends n) = true → n ∉ taken s
  flagged : ∀ slot, (s.handles slot).inUse = true → (s.handles slot).cancelled = true →
    Effect.cancelled (s.handles slot).callback ∈ s.history
  events : ∀ event ∈ s.events, (s.handles event.handle).inUse = true →
    event.request = (s.handles event.handle).callback
  cancelEvents : ∀ event ∈ s.events, event.type = .CANCEL_EVENT →
    Effect.cancelled event.request ∈ s.history
  rejected : ∀ addition ∈ rejectedIn s.phase, (s.handles addition.slot).inUse = true →
    addition.request = (s.handles addition.slot).callback
  sends : ∀ n slot, slotOf (s.sends n) = some slot → (s.handles slot).inUse = true →
    (s.handles slot).callback = some n
  added : ∀ addition ∈ s.multi.added, (s.handles addition.slot).inUse = true ∧
    addition.request = (s.handles addition.slot).callback
  messages : ∀ message ∈ s.multi.messages, message.addition ∈ s.multi.added
  lost_nodup : (lostHandles s.phase).Nodup
  lost : ∀ slot ∈ lostHandles s.phase, (s.multi.find slot).isSome = true
  completing : CompletingClean s
  open_le : ∀ n, attemptsOpen s n ≤ 1
  taken_of_open : ∀ n, attemptsOpen s n ≠ 0 → n ∈ taken s
  sends_held : ∀ n slot, NotCancelled s n → slotOf (s.sends n) = some slot →
    (s.handles slot).inUse = true
  events_held : ∀ n, NotCancelled s n → ∀ event ∈ s.events, isSendOf n event = true →
    (s.handles event.handle).inUse = true
  once : ∀ n, NotCancelled s n → additions s n + sendEvents s n = attempts s n
  own : ∀ n, NotCancelled s n → ∀ effect ∈ s.history, OwnEffect n effect

section Step

variable {s s' : CurlState}

/-! ### What leaves the slots to their requests -/

/-- Two states of a slot with the same request. -/
structure SameSlot (handle handle' : RequestHandle) : Prop where
  inUse : handle'.inUse = handle.inUse
  callback : handle'.callback = handle.callback
  cancelled : handle'.cancelled = handle.cancelled

namespace SameSlot

theorem refl (handle : RequestHandle) : SameSlot handle handle := ⟨rfl, rfl, rfl⟩

end SameSlot

theorem sameSlot_of_sameRequest {handle handle' : RequestHandle}
    (h : SameRequest handle handle') : SameSlot handle handle' :=
  ⟨h.inUse, h.callback, h.cancelled⟩

/-- A slot is replaced by one with the same request. -/
theorem sameSlot_setHandle (s : CurlState) {slot : Slot} {handle : RequestHandle}
    (h : SameSlot (s.handles slot) handle) (other : Slot) :
    SameSlot (s.handles other) ((s.setHandle slot handle).handles other) :=
  setHandle_related SameSlot.refl s h other

/-- A step leaves the slots to their requests, and gives no slot to a call of `Send`. -/
structure KeepsSlots (s s' : CurlState) : Prop where
  inUse : ∀ slot, (s'.handles slot).inUse = (s.handles slot).inUse
  callback : ∀ slot, (s'.handles slot).callback = (s.handles slot).callback
  flagged : ∀ slot, (s'.handles slot).cancelled = true → (s.handles slot).cancelled = true ∨
    Effect.cancelled (s.handles slot).callback ∈ s'.history
  sends : ∀ n, slotOf (s'.sends n) = slotOf (s.sends n) ∨ slotOf (s'.sends n) = none
  before : ∀ n, isBefore (s'.sends n) = true → isBefore (s.sends n) = true
  taken_eq : taken s' = taken s
  cancelled : ∀ request, Effect.cancelled request ∈ s.history →
    Effect.cancelled request ∈ s'.history

/-- What is new in a state is for the request in the slot. -/
structure QueuesClean (s s' : CurlState) : Prop where
  events : ∀ event ∈ s'.events, event ∈ s.events ∨
    ((s.handles event.handle).inUse = true → event.request = (s.handles event.handle).callback) ∧
    (event.type = .CANCEL_EVENT → Effect.cancelled event.request ∈ s'.history) ∧
    ∀ n, NotCancelled s n → isSendOf n event = true → (s.handles event.handle).inUse = true
  rejected : ∀ addition ∈ rejectedIn s'.phase, addition ∈ rejectedIn s.phase ∨
    addition.request = (s.handles addition.slot).callback
  added : ∀ addition ∈ s'.multi.added, addition ∈ s.multi.added ∨
    (s.handles addition.slot).inUse = true ∧ addition.request = (s.handles addition.slot).callback
  messages : ∀ message ∈ s'.multi.messages, message.addition ∈ s'.multi.added
  lost_nodup : (lostHandles s'.phase).Nodup
  lost : ∀ slot ∈ lostHandles s'.phase, (s'.multi.find slot).isSome = true

theorem NotCancelled.of_keeps (hkeeps : KeepsSlots s s') {n : ℕ} (h : NotCancelled s' n) :
    NotCancelled s n := fun hcancelled => h (hkeeps.cancelled _ hcancelled)

/-- A step that leaves the requests in their slots. -/
theorem Clean.of_keeps (h : Clean s) (hkeeps : KeepsSlots s s') (hqueues : QueuesClean s s')
    (hcompleting : CompletingClean s') (hopen : ∀ n, attemptsOpen s' n ≤ attemptsOpen s n)
    (honce : ∀ n, NotCancelled s n → additions s' n + sendEvents s' n = attempts s' n)
    (hown : ∀ n, NotCancelled s' n → ∀ effect ∈ s'.history, OwnEffect n effect) : Clean s' where
  held slot huse := by
    rw [hkeeps.inUse slot] at huse
    rw [hkeeps.callback slot, hkeeps.taken_eq]
    exact h.held slot huse
  before n hn := by
    rw [hkeeps.taken_eq]
    exact h.before n (hkeeps.before n hn)
  flagged slot huse hcancelled := by
    rw [hkeeps.inUse slot] at huse
    rw [hkeeps.callback slot]
    rcases hkeeps.flagged slot hcancelled with hold | hnew
    · exact hkeeps.cancelled _ (h.flagged slot huse hold)
    · exact hnew
  events event hevent huse := by
    rw [hkeeps.inUse] at huse
    rw [hkeeps.callback]
    rcases hqueues.events event hevent with hold | ⟨hnew, -⟩
    · exact h.events event hold huse
    · exact hnew huse
  cancelEvents event hevent htype := by
    rcases hqueues.events event hevent with hold | ⟨-, hnew, -⟩
    · exact hkeeps.cancelled _ (h.cancelEvents event hold htype)
    · exact hnew htype
  rejected addition haddition huse := by
    rw [hkeeps.inUse] at huse
    rw [hkeeps.callback]
    rcases hqueues.rejected addition haddition with hold | hnew
    · exact h.rejected addition hold huse
    · exact hnew
  sends n slot hslot huse := by
    rw [hkeeps.inUse slot] at huse
    rw [hkeeps.callback slot]
    rcases hkeeps.sends n with hsame | hnone
    · exact h.sends n slot (hsame.symm.trans hslot) huse
    · rw [hnone] at hslot
      cases hslot
  added addition haddition := by
    rw [hkeeps.inUse, hkeeps.callback]
    rcases hqueues.added addition haddition with hold | hnew
    · exact h.added addition hold
    · exact hnew
  messages := hqueues.messages
  lost_nodup := hqueues.lost_nodup
  lost := hqueues.lost
  completing := hcompleting
  open_le n := (hopen n).trans (h.open_le n)
  taken_of_open n hn := by
    rw [hkeeps.taken_eq]
    refine h.taken_of_open n fun hzero => hn ?_
    exact Nat.le_zero.mp (hzero ▸ hopen n)
  sends_held n slot hn hslot := by
    rw [hkeeps.inUse slot]
    rcases hkeeps.sends n with hsame | hnone
    · exact h.sends_held n slot (hn.of_keeps hkeeps) (hsame.symm.trans hslot)
    · rw [hnone] at hslot
      cases hslot
  events_held n hn event hevent hsend := by
    rw [hkeeps.inUse]
    rcases hqueues.events event hevent with hold | ⟨-, -, hnew⟩
    · exact h.events_held n (hn.of_keeps hkeeps) event hold hsend
    · exact hnew n (hn.of_keeps hkeeps) hsend
  once n hn := honce n (hn.of_keeps hkeeps)
  own := hown

/-! ### What `CompleteMessage` is about stays -/

theorem CancelKnown.mono {cause : Cause} (h : CancelKnown s cause)
    (hcancelled : ∀ request, Effect.cancelled request ∈ s.history →
      Effect.cancelled request ∈ s'.history) : CancelKnown s' cause := by
  cases cause with
  | cancelEvent request => exact hcancelled request h
  | _ => trivial

/-- A request whose cancellation is known is cancelled. -/
theorem isCancelEvent_of_notCancelled {cause : Cause} {n : ℕ} (h : CancelKnown s cause)
    (hrequest : requestOf cause = some n) (hn : NotCancelled s n) :
    isCancelEvent cause = false := by
  cases cause with
  | cancelEvent request =>
    cases hrequest
    exact absurd h hn
  | _ => rfl

theorem CompletingClean.of_keeps (h : CompletingClean s)
    (hheld : ∀ slot, (s.handles slot).inUse = true → (s'.handles slot).inUse = true ∧
      (s'.handles slot).callback = (s.handles slot).callback)
    (hcalled : ∀ slot outcome cause, s.completing = some (.called slot outcome cause) →
      (s'.handles slot).inUse = true → (s.handles slot).inUse = true)
    (hadded : ∀ addition ∈ s'.multi.added, addition ∈ s.multi.added)
    (hcancelled : ∀ request, Effect.cancelled request ∈ s.history →
      Effect.cancelled request ∈ s'.history)
    (hcompleting : s'.completing = s.completing) : CompletingClean s' := by
  have hgone : ∀ {slot : Slot}, Gone s slot → Gone s' slot :=
    fun hslot addition haddition => hslot addition (hadded addition haddition)
  have hnot : ∀ {n : ℕ}, NotCancelled s' n → NotCancelled s n :=
    fun hn hn' => hn (hcancelled _ hn')
  have hheldBy : ∀ {slot : Slot} {n : ℕ}, HeldBy s slot n → HeldBy s' slot n :=
    fun hslot => ⟨(hheld _ hslot.1).1, (hheld _ hslot.1).2.trans hslot.2⟩
  unfold CompletingClean at h ⊢
  rw [hcompleting]
  split
  · rename_i slot outcome cause hcase
    rw [hcase] at h
    obtain ⟨hslot, hknown, hmatches, hrequest⟩ := h
    refine ⟨hgone hslot, hknown.mono hcancelled, hmatches, fun huse => ?_⟩
    have huse' := hcalled slot outcome cause hcase huse
    rw [(hheld slot huse').2]
    exact hrequest huse'
  · rename_i slot callback outcome cause hcase
    rw [hcase] at h
    obtain ⟨hslot, hknown, hmatches, hby, hrequest⟩ := h
    exact ⟨hgone hslot, hknown.mono hcancelled, hmatches, hheldBy hby, hrequest⟩
  · rename_i slot hcase
    rw [hcase] at h
    exact (hheld slot h).1
  · rename_i slot callback id status cause hcase
    rw [hcase] at h
    obtain ⟨hslot, hknown, hby, hrequest, hstatus⟩ := h
    exact ⟨hgone hslot, hknown.mono hcancelled, hheldBy hby, hrequest,
      fun hn => hstatus (hnot hn)⟩
  · rename_i callback id status cause hcase
    rw [hcase] at h
    exact fun hn => h (hnot hn)
  · trivial

/-! ### A slot is taken, and released -/

theorem attemptIn_congr {completing : Option Completing}
    (h : ∀ slot, completing = some (.retrying slot) →
      (s'.handles slot).callback = (s.handles slot).callback) :
    attemptIn s' completing = attemptIn s completing := by
  cases completing with
  | none => rfl
  | some completing =>
    cases completing with
    | retrying slot => exact h slot rfl
    | _ => rfl

theorem CompletingClean.of_retrying (h : CompletingClean s) {slot : Slot}
    (hcase : s.completing = some (.retrying slot)) : (s.handles slot).inUse = true := by
  unfold CompletingClean at h
  rw [hcase] at h
  exact h

/-- Places of attempts that tell a request of their own. -/
theorem attemptsOpen_eq_zero {n : ℕ} (h : attemptsOpen s n = 0) :
    slotOf (s.sends n) = none ∧ (∀ event ∈ s.events, isSendOf n event = false) := by
  unfold attemptsOpen sendEvents at h
  have hsends : (slotOf (s.sends n)).isSome.toNat = 0 := by omega
  have hevents : s.events.countP (isSendOf n) = 0 := by omega
  constructor
  · cases hslot : slotOf (s.sends n) with
    | none => rfl
    | some slot =>
      rw [hslot] at hsends
      cases hsends
  · intro event hevent
    exact Bool.eq_false_iff.mpr (List.countP_eq_zero.mp hevents event hevent)

theorem clean_takes (h : Clean s) {n : ℕ} {r : SendRequest} {slot : Slot} {created : Bool}
    (hsend : s.sends n = .locking r) (hfree : s.freeSlot = some slot)
    (hfresh : Fresh s (.getHandle n created)) :
    Clean (((s.setHandle slot (take (s.handles slot) r.id (some n) r.headerCallback
      r.dataCallback r.payload)).setSend n (.configuring slot r)).record (.took n)) := by
  obtain ⟨hevents, hrejected, hsends, hcalled⟩ := hfresh slot hfree
  have hunused := inUse_of_freeSlot hfree
  have hnew : n ∉ taken s := h.before n (by rw [hsend]; rfl)
  have hnone : attemptsOpen s n = 0 := by
    by_contra hopen
    exact hnew (h.taken_of_open n hopen)
  set handle := take (s.handles slot) r.id (some n) r.headerCallback r.dataCallback r.payload
  set s' := ((s.setHandle slot handle).setSend n (.configuring slot r)).record (.took n) with hs'
  have hself : s'.handles slot = handle := Function.update_self ..
  have hother : ∀ other, other ≠ slot → s'.handles other = s.handles other :=
    fun other hne => Function.update_of_ne hne ..
  have hsendSelf : s'.sends n = .configuring slot r := Function.update_self ..
  have hsendOther : ∀ m, m ≠ n → s'.sends m = s.sends m :=
    fun m hne => Function.update_of_ne hne ..
  have hne_of_use : ∀ other, (s.handles other).inUse = true → other ≠ slot := by
    rintro other huse rfl
    rw [hunused] at huse
    cases huse
  have hmono : ∀ request, Effect.cancelled request ∈ s.history →
      Effect.cancelled request ∈ s'.history := fun _ => List.mem_cons_of_mem _
  have hnot : ∀ m, NotCancelled s' m → NotCancelled s m := fun m hm hm' => hm (hmono _ hm')
  have hattempt : attemptIn s' s'.completing = attemptIn s s.completing := by
    refine attemptIn_congr fun other hcase => ?_
    rw [hother other (hne_of_use other (h.completing.of_retrying hcase))]
  have hopenOther : ∀ m, m ≠ n → attemptsOpen s' m = attemptsOpen s m := by
    intro m hne
    unfold attemptsOpen
    rw [hsendOther m hne, hattempt]
    rfl
  have hopenSelf : attemptsOpen s' n = 1 := by
    have hzero := hnone
    unfold attemptsOpen at hzero ⊢
    rw [hattempt, hsendSelf]
    show 1 + s.events.countP (isSendOf n) + s.multi.added.countP (isOf n) +
      (rejectedIn s.phase).countP (isOf n) + _ = 1
    unfold sendEvents at hzero
    omega
  refine
    { held := ?_, before := ?_, flagged := ?_, events := ?_, cancelEvents := ?_, rejected := ?_,
      sends := ?_, added := ?_, messages := h.messages, lost_nodup := h.lost_nodup
      lost := h.lost, completing := ?_, open_le := ?_, taken_of_open := ?_, sends_held := ?_
      events_held := ?_, once := fun m hm => h.once m (hnot m hm), own := ?_ }
  · intro other huse
    show ∃ m, (s'.handles other).callback = some m ∧ m ∈ n :: taken s
    by_cases heq : other = slot
    · subst heq
      rw [hself]
      exact ⟨n, rfl, List.mem_cons_self⟩
    · rw [hother other heq] at huse ⊢
      obtain ⟨m, hm, hmem⟩ := h.held other huse
      exact ⟨m, hm, List.mem_cons_of_mem n hmem⟩
  · intro m hm
    by_cases heq : m = n
    · subst heq
      rw [hsendSelf] at hm
      cases hm
    · rw [hsendOther m heq] at hm
      show m ∉ n :: taken s
      rw [List.mem_cons, not_or]
      exact ⟨heq, h.before m hm⟩
  · intro other huse hcancelled
    by_cases heq : other = slot
    · subst heq
      rw [hself] at hcancelled
      cases hcancelled
    · rw [hother other heq] at huse hcancelled ⊢
      exact hmono _ (h.flagged other huse hcancelled)
  · intro event hevent huse
    have heq := hevents event hevent
    rw [hother _ heq] at huse ⊢
    exact h.events event hevent huse
  · exact fun event hevent htype => hmono _ (h.cancelEvents event hevent htype)
  · intro addition haddition huse
    have heq := hrejected addition haddition
    rw [hother _ heq] at huse ⊢
    exact h.rejected addition haddition huse
  · intro m other hm huse
    by_cases heq : m = n
    · subst heq
      rw [hsendSelf] at hm
      cases hm
      rw [hself]
      rfl
    · rw [hsendOther m heq] at hm
      have hne : other ≠ slot := by
        rintro rfl
        exact hsends m hm
      rw [hother other hne] at huse ⊢
      exact h.sends m other hm huse
  · intro addition haddition
    have hold := h.added addition haddition
    rw [hother _ (hne_of_use _ hold.1)]
    exact hold
  · refine h.completing.of_keeps (fun other huse => ?_) (fun other outcome cause hcase huse => ?_)
      (fun _ => id) hmono rfl
    · rw [hother other (hne_of_use other huse)]
      exact ⟨huse, rfl⟩
    · rw [hother other] at huse
      · exact huse
      · rintro rfl
        exact hcalled outcome cause hcase
  · intro m
    by_cases heq : m = n
    · subst heq
      exact hopenSelf.le
    · rw [hopenOther m heq]
      exact h.open_le m
  · intro m hm
    show m ∈ n :: taken s
    by_cases heq : m = n
    · subst heq
      exact List.mem_cons_self
    · rw [hopenOther m heq] at hm
      exact List.mem_cons_of_mem n (h.taken_of_open m hm)
  · intro m other hm hslot
    by_cases heq : m = n
    · subst heq
      rw [hsendSelf] at hslot
      cases hslot
      rw [hself]
      rfl
    · rw [hsendOther m heq] at hslot
      have huse := h.sends_held m other (hnot m hm) hslot
      rw [hother other (hne_of_use other huse)]
      exact huse
  · intro m hm event hevent hsend'
    have huse := h.events_held m (hnot m hm) event hevent hsend'
    rw [hother _ (hne_of_use _ huse)]
    exact huse
  · intro m hm effect heffect
    rcases List.mem_cons.mp heffect with rfl | hold
    · trivial
    · exact h.own m (hnot m hm) effect hold

/-- `CompleteMessage` releases the slot of a request. -/
theorem clean_releases (h : Clean s) {slot : Slot} {callback id : ℕ} {status : ℤ} {cause : Cause}
    (hgone : Gone s slot) (hknown : CancelKnown s cause) (hby : HeldBy s slot callback)
    (hrequest : requestOf cause = some callback)
    (hattempt : attemptIn s s.completing = if isCancelEvent cause then none else requestOf cause)
    (hstatus : NotCancelled s callback → OwnOutcome callback cause status) :
    Clean { s.setHandle slot (releaseHandleUnlocked (s.handles slot)) with
      completing := some (.answering callback id status cause) } := by
  set s' : CurlState := { s.setHandle slot (releaseHandleUnlocked (s.handles slot)) with
    completing := some (.answering callback id status cause) } with hs'
  have hself : s'.handles slot = releaseHandleUnlocked (s.handles slot) := Function.update_self ..
  have hother : ∀ other, other ≠ slot → s'.handles other = s.handles other :=
    fun other hne => Function.update_of_ne hne ..
  have hne_of_use : ∀ other, (s'.handles other).inUse = true → other ≠ slot := by
    rintro other huse rfl
    rw [hself] at huse
    cases huse
  -- the attempt of a request that is not cancelled is the one that ends here
  have hnothing : ∀ n, NotCancelled s n → HeldBy s slot n →
      slotOf (s.sends n) = none ∧ ∀ event ∈ s.events, isSendOf n event = false := by
    intro n hn hbyn
    have heq : n = callback := Option.some.inj (hbyn.2.symm.trans hby.2)
    subst heq
    have hcause := isCancelEvent_of_notCancelled hknown hrequest hn
    have hin : attemptIn s s.completing = some n := by
      rw [hattempt, hcause]
      exact hrequest
    have hle := h.open_le n
    unfold attemptsOpen at hle
    rw [hin, decide_eq_true rfl] at hle
    have hzero : attemptsOpen { s with completing := none } n = 0 := by
      unfold attemptsOpen
      show (slotOf (s.sends n)).isSome.toNat + s.events.countP (isSendOf n) +
        s.multi.added.countP (isOf n) + (rejectedIn s.phase).countP (isOf n) + 0 = 0
      unfold sendEvents at hle
      rw [Bool.toNat_true] at hle
      omega
    exact attemptsOpen_eq_zero (s := { s with completing := none }) hzero
  refine
    { held := ?_, before := h.before, flagged := ?_, events := ?_
      cancelEvents := h.cancelEvents, rejected := ?_, sends := ?_, added := ?_
      messages := h.messages, lost_nodup := h.lost_nodup, lost := h.lost, completing := hstatus
      open_le := ?_, taken_of_open := ?_, sends_held := ?_, events_held := ?_, once := h.once
      own := h.own }
  · intro other huse
    have hne := hne_of_use other huse
    rw [hother other hne] at huse ⊢
    exact h.held other huse
  · intro other huse hcancelled
    have hne := hne_of_use other huse
    rw [hother other hne] at huse hcancelled ⊢
    exact h.flagged other huse hcancelled
  · intro event hevent huse
    have hne := hne_of_use _ huse
    rw [hother _ hne] at huse ⊢
    exact h.events event hevent huse
  · intro addition haddition huse
    have hne := hne_of_use _ huse
    rw [hother _ hne] at huse ⊢
    exact h.rejected addition haddition huse
  · intro n other hn huse
    have hne := hne_of_use other huse
    rw [hother other hne] at huse ⊢
    exact h.sends n other hn huse
  · intro addition haddition
    rw [hother _ (hgone addition haddition)]
    exact h.added addition haddition
  · intro n
    refine le_trans ?_ (h.open_le n)
    unfold attemptsOpen
    exact Nat.add_le_add_left (Nat.zero_le _) _
  · intro n hn
    refine h.taken_of_open n fun hzero => hn ?_
    unfold attemptsOpen at hzero ⊢
    have hnone : (decide (attemptIn s' s'.completing = some n)).toNat = 0 := rfl
    have hsame : sendEvents s' n = sendEvents s n := rfl
    rw [hnone, hsame]
    show (slotOf (s.sends n)).isSome.toNat + sendEvents s n + s.multi.added.countP (isOf n) +
      (rejectedIn s.phase).countP (isOf n) + 0 = 0
    omega
  · intro n other hn hslot
    have huse := h.sends_held n other hn hslot
    have hne : other ≠ slot := by
      rintro rfl
      have hnone := (hnothing n hn ⟨huse, h.sends n other hslot huse⟩).1
      have hslot' : slotOf (s.sends n) = some other := hslot
      rw [hnone] at hslot'
      cases hslot'
    rw [hother other hne]
    exact huse
  · intro n hn event hevent hsend
    have huse := h.events_held n hn event hevent hsend
    have hne : event.handle ≠ slot := by
      intro heq
      have hrequest' : event.request = some n := by
        unfold isSendOf at hsend
        rw [Bool.and_eq_true, decide_eq_true_eq, decide_eq_true_eq] at hsend
        exact hsend.2
      have hholder := h.events event hevent huse
      rw [heq, hrequest'] at hholder
      have hfalse := (hnothing n hn ⟨heq ▸ huse, hholder.symm⟩).2 event hevent
      rw [hsend] at hfalse
      cases hfalse
    rw [hother _ hne]
    exact huse

/-! ### Frames -/

/-- The slots have the same requests, and the history no cancellation that was forgotten. -/
theorem keepsSlots_of_same (hhandles : ∀ slot, SameSlot (s.handles slot) (s'.handles slot))
    (hsends : ∀ n, slotOf (s'.sends n) = slotOf (s.sends n) ∨ slotOf (s'.sends n) = none)
    (hbefore : ∀ n, isBefore (s'.sends n) = true → isBefore (s.sends n) = true)
    (htaken : taken s' = taken s) (hcancelled : ∀ request, Effect.cancelled request ∈ s.history →
      Effect.cancelled request ∈ s'.history) : KeepsSlots s s' where
  inUse slot := (hhandles slot).inUse
  callback slot := (hhandles slot).callback
  flagged slot hflag := Or.inl ((hhandles slot).cancelled.symm.trans hflag)
  sends := hsends
  before := hbefore
  taken_eq := htaken
  cancelled := hcancelled

/-- The worker leaves the calls of `Send`. -/
theorem keepsSlots_of_worker (hhandles : ∀ slot, SameSlot (s.handles slot) (s'.handles slot))
    (hsends : s'.sends = s.sends) (htaken : taken s' = taken s)
    (hcancelled : ∀ request, Effect.cancelled request ∈ s.history →
      Effect.cancelled request ∈ s'.history) : KeepsSlots s s' :=
  keepsSlots_of_same hhandles (fun n => Or.inl (by rw [hsends])) (fun n => by rw [hsends]; exact id)
    htaken hcancelled

/-- Nothing new is queued. -/
theorem Clean.queuesClean (h : Clean s) (hevents : ∀ event ∈ s'.events, event ∈ s.events)
    (hrejected : ∀ addition ∈ rejectedIn s'.phase, addition ∈ rejectedIn s.phase)
    (hmulti : s'.multi = s.multi)
    (hlost : lostHandles s'.phase = lostHandles s.phase ∨ lostHandles s'.phase = []) :
    QueuesClean s s' where
  events event hevent := Or.inl (hevents event hevent)
  rejected addition haddition := Or.inl (hrejected addition haddition)
  added addition haddition := Or.inl (by rwa [hmulti] at haddition)
  messages := by
    rw [hmulti]
    exact h.messages
  lost_nodup := by
    rcases hlost with heq | heq
    · rw [heq]
      exact h.lost_nodup
    · rw [heq]
      exact List.nodup_nil
  lost := by
    rw [hmulti]
    rcases hlost with heq | heq
    · rw [heq]
      exact h.lost
    · rw [heq]
      exact fun slot hslot => absurd hslot List.not_mem_nil

/-- A step of the callers that queues nothing. -/
theorem Clean.of_callers (h : Clean s)
    (hhandles : ∀ slot, SameSlot (s.handles slot) (s'.handles slot))
    (hsends : ∀ n, slotOf (s'.sends n) = slotOf (s.sends n) ∨ slotOf (s'.sends n) = none)
    (hbefore : ∀ n, isBefore (s'.sends n) = true → isBefore (s.sends n) = true)
    (hevents : s'.events = s.events) (hmulti : s'.multi = s.multi) (hphase : s'.phase = s.phase)
    (hcompleting : s'.completing = s.completing) (hhistory : s'.history = s.history) :
    Clean s' := by
  have hcancelled : ∀ request, Effect.cancelled request ∈ s.history →
      Effect.cancelled request ∈ s'.history := by
    rw [hhistory]
    exact fun _ => id
  have htaken : taken s' = taken s := by
    unfold taken
    rw [hhistory]
  refine h.of_keeps (keepsSlots_of_same hhandles hsends hbefore htaken hcancelled)
    (h.queuesClean ?_ ?_ hmulti ?_) ?_ (fun n => ?_) (fun n hn => ?_) fun n hn => ?_
  · rw [hevents]
    exact fun _ => id
  · rw [hphase]
    exact fun _ => id
  · rw [hphase]
    exact Or.inl rfl
  · refine h.completing.of_keeps (fun slot huse => ?_) (fun slot _ _ _ huse => ?_) ?_ hcancelled
      hcompleting
    · exact ⟨(hhandles slot).inUse.trans huse, (hhandles slot).callback⟩
    · rwa [(hhandles slot).inUse] at huse
    · rw [hmulti]
      exact fun _ => id
  · have hattempt : attemptIn s' s.completing = attemptIn s s.completing :=
      attemptIn_congr fun slot _ => (hhandles slot).callback
    unfold attemptsOpen sendEvents
    rw [hevents, hmulti, hphase, hcompleting, hattempt]
    rcases hsends n with heq | heq
    · rw [heq]
    · rw [heq]
      have hzero : (none : Option Slot).isSome.toNat = 0 := rfl
      rw [hzero]
      omega
  · unfold additions attempts sendEvents
    rw [hhistory, hevents]
    exact h.once n hn
  · rw [hhistory]
    refine h.own n fun hmem => hn (hcancelled _ hmem)

theorem toNat_decide_le {p q : Prop} [Decidable p] [Decidable q] (h : p → q) :
    (decide p).toNat ≤ (decide q).toNat := by
  by_cases hp : p
  · rw [decide_eq_true hp, decide_eq_true (h hp)]
  · rw [decide_eq_false hp]
    exact Nat.zero_le _

/-- A step inside `CompleteMessage` that queues nothing and leaves the slots. -/
theorem Clean.of_completing (h : Clean s)
    (hhandles : ∀ slot, SameSlot (s.handles slot) (s'.handles slot)) (hsends : s'.sends = s.sends)
    (hevents : s'.events = s.events) (hmulti : s'.multi = s.multi) (hphase : s'.phase = s.phase)
    (hhistory : s'.history = s.history ∨ ∃ callback cause id status,
      s'.history = .answered callback cause id status :: s.history ∧
      (NotCancelled s callback → OwnOutcome callback cause status))
    (hcompleting : CompletingClean s')
    (hattempt : ∀ n, attemptIn s' s'.completing = some n → attemptIn s s.completing = some n) :
    Clean s' := by
  have hcancelled : ∀ request, Effect.cancelled request ∈ s.history →
      Effect.cancelled request ∈ s'.history := by
    rcases hhistory with heq | ⟨callback, cause, id, status, heq, -⟩
    · rw [heq]
      exact fun _ => id
    · rw [heq]
      exact fun _ => List.mem_cons_of_mem _
  have htaken : taken s' = taken s := by
    unfold taken
    rcases hhistory with heq | ⟨callback, cause, id, status, heq, -⟩
    · rw [heq]
    · rw [heq]
      rfl
  refine h.of_keeps (keepsSlots_of_worker hhandles hsends htaken hcancelled)
    (h.queuesClean ?_ ?_ hmulti ?_) hcompleting (fun n => ?_) (fun n hn => ?_) fun n hn => ?_
  · rw [hevents]
    exact fun _ => id
  · rw [hphase]
    exact fun _ => id
  · rw [hphase]
    exact Or.inl rfl
  · unfold attemptsOpen sendEvents
    rw [hevents, hmulti, hphase, hsends]
    exact Nat.add_le_add_left (toNat_decide_le (hattempt n)) _
  · have honce := h.once n hn
    unfold additions attempts sendEvents at honce ⊢
    rw [hevents]
    rcases hhistory with heq | ⟨callback, cause, id, status, heq, -⟩
    · rw [heq]
      exact honce
    · rw [heq, List.countP_cons_of_neg Bool.false_ne_true,
        List.countP_cons_of_neg Bool.false_ne_true]
      exact honce
  · have hn' : NotCancelled s n := fun hmem => hn (hcancelled _ hmem)
    rcases hhistory with heq | ⟨callback, cause, id, status, heq, howns⟩
    · rw [heq]
      exact h.own n hn'
    · rw [heq]
      intro effect heffect
      rcases List.mem_cons.mp heffect with rfl | hold
      · rintro rfl
        exact howns hn'
      · exact h.own n hn' effect hold

/-! ### What curl has -/

theorem mem_removeAll {multi : Multi} {slots : Slot → Bool} {addition : Addition} :
    addition ∈ (multi.removeAll slots).added ↔
      addition ∈ multi.added ∧ slots addition.slot = false := by
  show addition ∈ multi.added.filter _ ↔ _
  rw [List.mem_filter, Bool.not_eq_true']

theorem mem_remove {multi : Multi} {slot : Slot} {addition : Addition} :
    addition ∈ (multi.remove slot).added ↔ addition ∈ multi.added ∧ addition.slot ≠ slot := by
  show addition ∈ (multi.removeAll fun other => other = slot).added ↔ _
  rw [mem_removeAll, decide_eq_false_iff_not]

theorem gone_remove (multi : Multi) (slot : Slot) :
    ∀ addition ∈ (multi.remove slot).added, addition.slot ≠ slot :=
  fun _ haddition => (mem_remove.mp haddition).2

/-- The messages of removed handles are gone with them. -/
theorem messages_removeAll {multi : Multi}
    (h : ∀ message ∈ multi.messages, message.addition ∈ multi.added) (slots : Slot → Bool) :
    ∀ message ∈ (multi.removeAll slots).messages,
      message.addition ∈ (multi.removeAll slots).added := by
  intro message hmessage
  have hmessage' : message ∈ multi.messages.filter fun m => !slots m.addition.slot := hmessage
  rw [List.mem_filter, Bool.not_eq_true'] at hmessage'
  exact mem_removeAll.mpr ⟨h message hmessage'.1, hmessage'.2⟩

theorem find_some {multi : Multi} {slot : Slot} {addition : Addition}
    (h : multi.find slot = some addition) : addition ∈ multi.added ∧ addition.slot = slot := by
  refine ⟨List.mem_of_find?_eq_some h, ?_⟩
  have hfound := List.find?_some h
  exact of_decide_eq_true hfound

theorem isSome_find_remove {multi : Multi} {slot other : Slot} (hne : other ≠ slot)
    (h : (multi.find other).isSome = true) : ((multi.remove slot).find other).isSome = true := by
  obtain ⟨addition, hfound⟩ := Option.isSome_iff_exists.mp h
  obtain ⟨hmem, hslot⟩ := find_some hfound
  refine List.find?_isSome.mpr ⟨addition, mem_remove.mpr ⟨hmem, ?_⟩, decide_eq_true hslot⟩
  rwa [hslot]

theorem countP_removeAll_le (multi : Multi) (slots : Slot → Bool) (n : ℕ) :
    (multi.removeAll slots).added.countP (isOf n) ≤ multi.added.countP (isOf n) :=
  List.filter_sublist.countP_le

/-- A handle that is removed was counted. -/
theorem countP_remove_of_mem {multi : Multi} {addition : Addition} {n : ℕ}
    (hmem : addition ∈ multi.added) :
    (multi.remove addition.slot).added.countP (isOf n) +
      (decide (addition.request = some n)).toNat ≤ multi.added.countP (isOf n) := by
  by_cases hrequest : addition.request = some n
  · rw [decide_eq_true hrequest, Bool.toNat_true]
    have hsplit := List.countP_eq_countP_filter_add multi.added (isOf n)
      fun other => !decide (other.slot = addition.slot)
    have hpos : 0 < (multi.added.filter fun other =>
        !!decide (other.slot = addition.slot)).countP (isOf n) := by
      refine List.countP_pos_iff.mpr ⟨addition, List.mem_filter.mpr ⟨hmem, ?_⟩, ?_⟩
      · rw [Bool.not_not, decide_eq_true_eq]
      · exact decide_eq_true hrequest
    have hremove : (multi.remove addition.slot).added =
        multi.added.filter fun other => !decide (other.slot = addition.slot) := rfl
    rw [hremove]
    omega
  · rw [decide_eq_false hrequest]
    exact countP_removeAll_le multi _ n

/-! ### Events are queued -/

theorem isSendOf_send (slot : Slot) (request : Option ℕ) (n : ℕ) :
    isSendOf n ⟨.SEND_EVENT, slot, request⟩ = decide (request = some n) := by
  unfold isSendOf
  rw [decide_eq_true rfl, Bool.true_and]

theorem sendEvents_concat {event : EventInfo} (hevents : s'.events = s.events ++ [event]) (n : ℕ) :
    sendEvents s' n = sendEvents s n + (isSendOf n event).toNat := by
  unfold sendEvents
  rw [hevents, List.countP_append]
  cases hsend : isSendOf n event with
  | false => rw [List.countP_singleton, hsend]; rfl
  | true => rw [List.countP_singleton, hsend]; rfl

/-- An event is queued for an attempt of the request in a slot, which is not in its `Send` or in
`CompleteMessage` any more. -/
theorem Clean.of_attempt (h : Clean s) (slot : Slot) (n : ℕ)
    (huse : NotCancelled s n → (s.handles slot).inUse = true)
    (hcallback : (s.handles slot).inUse = true → (s.handles slot).callback = some n)
    (hhandles : s'.handles = s.handles)
    (hevents : s'.events = s.events ++ [⟨.SEND_EVENT, slot, some n⟩])
    (hhistory : s'.history = .queued (some n) :: s.history) (hmulti : s'.multi = s.multi)
    (hphase : s'.phase = s.phase)
    (hsends : ∀ m, slotOf (s'.sends m) = slotOf (s.sends m) ∨ slotOf (s'.sends m) = none)
    (hbefore : ∀ m, isBefore (s'.sends m) = true → isBefore (s.sends m) = true)
    (hcompleting : CompletingClean s')
    (hopen : ∀ m, (slotOf (s'.sends m)).isSome.toNat +
        (decide (attemptIn s' s'.completing = some m)).toNat + (decide (n = m)).toNat ≤
      (slotOf (s.sends m)).isSome.toNat + (decide (attemptIn s s.completing = some m)).toNat) :
    Clean s' := by
  have hsend : ∀ m, isSendOf m ⟨.SEND_EVENT, slot, some n⟩ = decide (n = m) := by
    intro m
    rw [isSendOf_send]
    exact decide_eq_decide.mpr Option.some_inj
  have hmono : ∀ request, Effect.cancelled request ∈ s.history →
      Effect.cancelled request ∈ s'.history := by
    rw [hhistory]
    exact fun _ => List.mem_cons_of_mem _
  have htaken : taken s' = taken s := by
    unfold taken
    rw [hhistory]
    rfl
  have hkeeps : KeepsSlots s s' :=
    keepsSlots_of_same (fun slot => by rw [hhandles]; exact SameSlot.refl _) hsends hbefore htaken
      hmono
  have hold : QueuesClean s { s' with events := s.events } := h.queuesClean (fun _ => id)
    (by rw [hphase]; exact fun _ => id) hmulti (Or.inl (by rw [hphase]))
  refine h.of_keeps hkeeps { hold with events := ?_ } hcompleting (fun m => ?_) (fun m hm => ?_)
    fun m hm => ?_
  · intro event hevent
    rw [hevents, List.mem_append, List.mem_singleton] at hevent
    rcases hevent with hevent | rfl
    · exact Or.inl hevent
    · refine Or.inr ⟨fun huse' => (hcallback huse').symm, ?_, ?_⟩
      · intro htype
        cases htype
      · intro m hm hsend'
        rw [hsend, decide_eq_true_eq] at hsend'
        subst hsend'
        exact huse hm
  · have hevents' := sendEvents_concat hevents m
    have hle := hopen m
    rw [hsend] at hevents'
    unfold attemptsOpen
    rw [hevents', hmulti, hphase]
    omega
  · have honce := h.once m hm
    have hevents' := sendEvents_concat hevents m
    have hadditions : additions s' m = additions s m := by
      unfold additions
      rw [hhistory, List.countP_cons_of_neg Bool.false_ne_true]
    have hattempts : attempts s' m = attempts s m + (decide (n = m)).toNat := by
      unfold attempts
      rw [hhistory, List.countP_cons]
      show _ + (if decide (some n = some m) = true then 1 else 0) = _
      by_cases heq : n = m
      · rw [decide_eq_true heq, decide_eq_true (congrArg some heq)]
        rfl
      · rw [decide_eq_false heq, decide_eq_false fun hsome => heq (Option.some.inj hsome)]
        rfl
    rw [hsend] at hevents'
    rw [hadditions, hattempts, hevents']
    omega
  · rw [hhistory]
    intro effect heffect
    rcases List.mem_cons.mp heffect with rfl | hold'
    · trivial
    · exact h.own m (hm.of_keeps hkeeps) effect hold'

theorem clean_queues (h : Clean s) {n : ℕ} {slot : Slot} (hsend : s.sends n = .addingEvent slot) :
    Clean (((s.addEvent .SEND_EVENT slot (some n)).setSend n .accepted).record
      (.queued (some n))) := by
  have hslot : slotOf (s.sends n) = some slot := by
    rw [hsend]
    rfl
  have hself : Function.update s.sends n .accepted n = .accepted := Function.update_self ..
  have hother : ∀ m, m ≠ n → Function.update s.sends n SendState.accepted m = s.sends m :=
    fun m hne => Function.update_of_ne hne ..
  refine h.of_attempt slot n (fun hn => h.sends_held n slot hn hslot)
    (h.sends n slot hslot) rfl rfl rfl rfl rfl (fun m => ?_) (fun m hm => ?_) ?_ fun m => ?_
  · show slotOf (Function.update s.sends n .accepted m) = slotOf (s.sends m) ∨
      slotOf (Function.update s.sends n .accepted m) = none
    by_cases heq : m = n
    · subst heq
      rw [hself]
      exact Or.inr rfl
    · rw [hother m heq]
      exact Or.inl rfl
  · have hm' : isBefore (Function.update s.sends n .accepted m) = true := hm
    by_cases heq : m = n
    · subst heq
      rw [hself] at hm'
      cases hm'
    · rwa [hother m heq] at hm'
  · exact h.completing.of_keeps (fun slot huse => ⟨huse, rfl⟩) (fun _ _ _ _ => id) (fun _ => id)
      (fun _ => List.mem_cons_of_mem _) rfl
  · have hattempt : attemptIn (((s.addEvent .SEND_EVENT slot (some n)).setSend n .accepted).record
        (.queued (some n))) s.completing = attemptIn s s.completing :=
      attemptIn_congr fun _ _ => rfl
    show (slotOf (Function.update s.sends n .accepted m)).isSome.toNat +
      (decide (attemptIn _ s.completing = some m)).toNat + _ ≤ _
    rw [hattempt]
    by_cases heq : n = m
    · subst heq
      rw [hself, hslot, decide_eq_true rfl]
      show 0 + _ + 1 ≤ 1 + _
      omega
    · rw [hother m (Ne.symm heq), decide_eq_false heq]
      exact le_refl _

theorem clean_retries (h : Clean s) {slot : Slot}
    (hcompleting : s.completing = some (.retrying slot)) :
    Clean { (s.addEvent .SEND_EVENT slot (s.handles slot).callback).record
      (.queued (s.handles slot).callback) with completing := some .returned } := by
  have huse := h.completing.of_retrying hcompleting
  obtain ⟨n, hn, -⟩ := h.held slot huse
  refine h.of_attempt slot n (fun _ => huse) (fun _ => hn) rfl ?_ ?_ rfl rfl
    (fun _ => Or.inl rfl) (fun _ => id) trivial fun m => ?_
  · show s.events ++ [⟨.SEND_EVENT, slot, (s.handles slot).callback⟩] = _
    rw [hn]
  · show Effect.queued (s.handles slot).callback :: s.history = _
    rw [hn]
  · have hattempt : attemptIn s s.completing = some n := by
      rw [hcompleting]
      exact hn
    rw [hattempt]
    show (slotOf (s.sends m)).isSome.toNat + 0 + _ ≤ _
    by_cases heq : n = m
    · subst heq
      rw [decide_eq_true rfl, decide_eq_true rfl]
      omega
    · rw [decide_eq_false heq, Bool.toNat_false]
      omega

theorem clean_marks (h : Clean s) {slot : Slot} (cancels : List ℕ)
    (huse : (s.handles slot).inUse = true) :
    Clean ((({ s with cancels := cancels }.setHandle slot
      { s.handles slot with cancelled := true }).addEvent .CANCEL_EVENT slot
      (s.handles slot).callback).record (.cancelled (s.handles slot).callback)) := by
  set s' := (({ s with cancels := cancels }.setHandle slot
    { s.handles slot with cancelled := true }).addEvent .CANCEL_EVENT slot
    (s.handles slot).callback).record (.cancelled (s.handles slot).callback) with hs'
  have hself : s'.handles slot = { s.handles slot with cancelled := true } :=
    Function.update_self ..
  have hother : ∀ other, other ≠ slot → s'.handles other = s.handles other :=
    fun other hne => Function.update_of_ne hne ..
  have hmono : ∀ request, Effect.cancelled request ∈ s.history →
      Effect.cancelled request ∈ s'.history := fun _ => List.mem_cons_of_mem _
  have hsend : ∀ m, isSendOf m ⟨.CANCEL_EVENT, slot, (s.handles slot).callback⟩ = false :=
    fun m => rfl
  have hkeeps : KeepsSlots s s' := by
    refine ⟨fun other => ?_, fun other => ?_, fun other hflag => ?_, fun _ => Or.inl rfl,
      fun _ => id, rfl, hmono⟩
    · by_cases heq : other = slot
      · subst heq
        rw [hself]
      · rw [hother other heq]
    · by_cases heq : other = slot
      · subst heq
        rw [hself]
      · rw [hother other heq]
    · by_cases heq : other = slot
      · subst heq
        exact Or.inr List.mem_cons_self
      · rw [hother other heq] at hflag
        exact Or.inl hflag
  have hold : QueuesClean s { s' with events := s.events } :=
    h.queuesClean (fun _ => id) (fun _ => id) rfl (Or.inl rfl)
  have hevents : s'.events = s.events ++ [⟨.CANCEL_EVENT, slot, (s.handles slot).callback⟩] := rfl
  refine h.of_keeps hkeeps { hold with events := ?_ } ?_ (fun m => ?_) (fun m hm => ?_)
    fun m hm => ?_
  · intro event hevent
    rw [hevents, List.mem_append, List.mem_singleton] at hevent
    rcases hevent with hevent | rfl
    · exact Or.inl hevent
    · exact Or.inr ⟨fun _ => rfl, fun _ => List.mem_cons_self, fun _ _ _ => huse⟩
  · exact h.completing.of_keeps
      (fun other huse' => ⟨(hkeeps.inUse other).trans huse', hkeeps.callback other⟩)
      (fun other _ _ _ huse' => (hkeeps.inUse other).symm.trans huse') (fun _ => id) hmono rfl
  · have hattempt : attemptIn s' s.completing = attemptIn s s.completing :=
      attemptIn_congr fun other _ => hkeeps.callback other
    have hsame := sendEvents_concat hevents m
    rw [hsend, Bool.toNat_false, Nat.add_zero] at hsame
    unfold attemptsOpen
    show _ + sendEvents s' m + _ + _ + (decide (attemptIn s' s.completing = some m)).toNat ≤ _
    rw [hattempt, hsame]
    exact le_refl _
  · have hsame := sendEvents_concat hevents m
    rw [hsend, Bool.toNat_false, Nat.add_zero] at hsame
    have honce := h.once m hm
    unfold additions attempts at honce ⊢
    rw [hsame]
    show (Effect.cancelled _ :: s.history).countP _ + _ = (Effect.cancelled _ :: s.history).countP _
    rw [List.countP_cons_of_neg Bool.false_ne_true, List.countP_cons_of_neg Bool.false_ne_true]
    exact honce
  · intro effect heffect
    rcases List.mem_cons.mp heffect with rfl | hold'
    · trivial
    · exact h.own m (hm.of_keeps hkeeps) effect hold'

/-! ### Events are handled -/

theorem sendEvents_cons {event : EventInfo} {events : List EventInfo}
    (hevents : s.events = event :: events) (n : ℕ) :
    sendEvents s n = events.countP (isSendOf n) + (isSendOf n event).toNat := by
  unfold sendEvents
  rw [hevents, List.countP_cons]
  cases isSendOf n event with
  | false => rfl
  | true => rfl

/-- What a step of the worker outside of `CompleteMessage` leaves. -/
theorem keepsSlots_of_history (hhandles : s'.handles = s.handles) (hsends : s'.sends = s.sends)
    {effects : List Effect} (hhistory : s'.history = effects ++ s.history)
    (heffects : effects.filterMap takenOf = []) : KeepsSlots s s' := by
  refine keepsSlots_of_worker (fun slot => by rw [hhandles]; exact SameSlot.refl _) hsends ?_ ?_
  · unfold taken
    rw [hhistory, List.filterMap_append, heffects, List.nil_append]
  · rw [hhistory]
    exact fun _ => List.mem_append_right effects

/-- A step of the worker whose effect a request that is not cancelled has of itself. -/
theorem Clean.of_worker (h : Clean s) (hhandles : s'.handles = s.handles)
    (hsends : s'.sends = s.sends) (effects : List Effect)
    (hhistory : s'.history = effects ++ s.history) (heffects : effects.filterMap takenOf = [])
    (hattempts : ∀ n, effects.countP (isAttemptOf n) = 0) (hqueues : QueuesClean s s')
    (hcompleting : CompletingClean s') (hopen : ∀ n, attemptsOpen s' n ≤ attemptsOpen s n)
    (honce : ∀ n, NotCancelled s n →
      effects.countP (isAddOf n) + sendEvents s' n = sendEvents s n)
    (hown : ∀ n, NotCancelled s n → ∀ effect ∈ effects, OwnEffect n effect) : Clean s' := by
  have hkeeps := keepsSlots_of_history hhandles hsends hhistory heffects
  refine h.of_keeps hkeeps hqueues hcompleting hopen (fun n hn => ?_) fun n hn effect heffect => ?_
  · have honce' := h.once n hn
    have hevents := honce n hn
    unfold additions attempts at honce' ⊢
    rw [hhistory, List.countP_append, List.countP_append, hattempts]
    omega
  · rw [hhistory, List.mem_append] at heffect
    rcases heffect with hnew | hold
    · exact hown n (hn.of_keeps hkeeps) effect hnew
    · exact h.own n (hn.of_keeps hkeeps) effect hold

theorem clean_skips (h : Clean s) {event : EventInfo} {events : List EventInfo}
    (hcompleting : s.completing = none) (hevents : s.events = event :: events)
    (huse : (s.handles event.handle).inUse = false) : Clean { s with events := events } := by
  refine h.of_worker rfl rfl [] rfl rfl (fun _ => rfl)
    (h.queuesClean ?_ (fun _ => id) rfl (Or.inl rfl)) ?_ (fun n => ?_) (fun n hn => ?_)
    fun _ _ _ heffect => absurd heffect List.not_mem_nil
  · rw [hevents]
    exact fun _ => List.mem_cons_of_mem event
  · unfold CompletingClean
    dsimp only
    rw [hcompleting]
    trivial
  · have hsplit := sendEvents_cons hevents n
    have hattempt : attemptIn { s with events := events } s.completing =
        attemptIn s s.completing := attemptIn_congr fun _ _ => rfl
    unfold attemptsOpen
    show (slotOf (s.sends n)).isSome.toNat + events.countP (isSendOf n) +
      s.multi.added.countP (isOf n) + (rejectedIn s.phase).countP (isOf n) +
      (decide (attemptIn { s with events := events } s.completing = some n)).toNat ≤ _
    rw [hattempt, hsplit]
    omega
  · have hsplit := sendEvents_cons hevents n
    have hother : isSendOf n event = false := by
      rw [Bool.eq_false_iff]
      intro hsend
      have hin := h.events_held n hn event (by rw [hevents]; exact List.mem_cons_self) hsend
      rw [huse] at hin
      cases hin
    rw [hother] at hsplit
    show 0 + events.countP (isSendOf n) = _
    rw [hsplit, Nat.zero_add]
    rfl

section Handled

variable {event : EventInfo} {events : List EventInfo} {msgs : List Addition}

/-- An event for a slot in use is about the request in the slot. -/
theorem Clean.request_eq (h : Clean s) (hevents : s.events = event :: events)
    (huse : (s.handles event.handle).inUse = true) :
    event.request = (s.handles event.handle).callback :=
  h.events event (by rw [hevents]; exact List.mem_cons_self) huse

theorem isSendOf_of_type (htype : event.type = .SEND_EVENT) (n : ℕ) :
    isSendOf n event = decide (event.request = some n) := by
  unfold isSendOf
  rw [decide_eq_true htype, Bool.true_and]

/-- A `SEND_EVENT` for a slot in use gives the request in it to curl, or to the rejected
handles. -/
theorem Clean.of_added (h : Clean s) (hevents : s.events = event :: events)
    (huse : (s.handles event.handle).inUse = true) (htype : event.type = .SEND_EVENT)
    (hcompleting : s.completing = none) {success : Bool}
    (hhandles : s'.handles = s.handles) (hsends : s'.sends = s.sends)
    (hevents' : s'.events = events) (hcompleting' : s'.completing = none)
    (hhistory : s'.history =
      [.added (s.handles event.handle).callback event.request success] ++ s.history)
    (hqueues : QueuesClean s s')
    (hplaces : ∀ n, s'.multi.added.countP (isOf n) + (rejectedIn s'.phase).countP (isOf n) ≤
      s.multi.added.countP (isOf n) + (rejectedIn s.phase).countP (isOf n) +
        (decide ((s.handles event.handle).callback = some n)).toNat) : Clean s' := by
  have hrequest := h.request_eq hevents huse
  refine h.of_worker hhandles hsends _ hhistory rfl (fun _ => rfl) hqueues ?_ (fun n => ?_)
    (fun n hn => ?_) fun n hn effect heffect => ?_
  · unfold CompletingClean
    rw [hcompleting']
    trivial
  · have hsplit := sendEvents_cons hevents n
    have hle := hplaces n
    rw [isSendOf_of_type htype, hrequest] at hsplit
    unfold attemptsOpen
    rw [hsplit, hsends, hcompleting', hcompleting]
    unfold sendEvents
    rw [hevents']
    show _ + _ + _ + _ + 0 ≤ _ + _ + _ + _ + 0
    omega
  · have hsplit := sendEvents_cons hevents n
    rw [isSendOf_of_type htype, hrequest] at hsplit
    rw [hsplit]
    unfold sendEvents
    rw [hevents', List.countP_singleton, Nat.add_comm]
    show _ + (if decide ((s.handles event.handle).callback = some n) = true then 1 else 0) = _
    cases decide ((s.handles event.handle).callback = some n) with
    | false => rfl
    | true => rfl
  · rw [List.mem_singleton] at heffect
    subst heffect
    exact fun hholder => hrequest.trans hholder

theorem clean_adds (h : Clean s) (hcompleting : s.completing = none)
    (hphase : s.phase = .events msgs) (hevents : s.events = event :: events)
    (huse : (s.handles event.handle).inUse = true) (htype : event.type = .SEND_EVENT) :
    Clean { { s with events := events }.record
        (.added (s.handles event.handle).callback event.request true) with
      multi := s.multi.add ⟨event.handle, (s.handles event.handle).callback⟩ } := by
  refine h.of_added hevents huse htype hcompleting rfl rfl rfl hcompleting rfl ?_ fun n => ?_
  · refine
      { events := fun event' hevent => Or.inl ?_, rejected := fun _ => Or.inl
        added := fun addition haddition => ?_, messages := fun message hmessage => ?_
        lost_nodup := h.lost_nodup, lost := fun slot hslot => ?_ }
    · rw [hevents]
      exact List.mem_cons_of_mem event hevent
    · rcases List.mem_append.mp haddition with hold | hnew
      · exact Or.inl hold
      · rw [List.mem_singleton] at hnew
        subst hnew
        exact Or.inr ⟨huse, rfl⟩
    · exact List.mem_append_left _ (h.messages message hmessage)
    · have hslot' : slot ∈ lostHandles s.phase := hslot
      rw [hphase] at hslot'
      exact absurd hslot' List.not_mem_nil
  · show (s.multi.added ++ [(⟨event.handle, (s.handles event.handle).callback⟩ : Addition)]).countP
      (isOf n) + _ ≤ _
    rw [List.countP_append, List.countP_singleton]
    show _ + (if decide ((s.handles event.handle).callback = some n) = true then 1 else 0) +
      (rejectedIn s.phase).countP (isOf n) ≤ _
    cases decide ((s.handles event.handle).callback = some n) with
    | false => exact le_refl _
    | true =>
      rw [if_pos rfl, Bool.toNat_true]
      omega

theorem clean_rejects (h : Clean s) (hcompleting : s.completing = none)
    (hphase : s.phase = .events msgs) (hevents : s.events = event :: events)
    (huse : (s.handles event.handle).inUse = true) (htype : event.type = .SEND_EVENT) :
    Clean { { s with events := events }.record
        (.added (s.handles event.handle).callback event.request false) with
      phase := .events (msgs ++ [⟨event.handle, (s.handles event.handle).callback⟩]) } := by
  refine h.of_added hevents huse htype hcompleting rfl rfl rfl hcompleting rfl ?_ fun n => ?_
  · refine
      { events := fun event' hevent => Or.inl ?_, rejected := fun addition haddition => ?_
        added := fun _ => Or.inl, messages := h.messages, lost_nodup := List.nodup_nil
        lost := fun slot hslot => absurd hslot List.not_mem_nil }
    · rw [hevents]
      exact List.mem_cons_of_mem event hevent
    · rcases List.mem_append.mp haddition with hold | hnew
      · rw [hphase]
        exact Or.inl hold
      · rw [List.mem_singleton] at hnew
        subst hnew
        exact Or.inr rfl
  · rw [hphase]
    show _ + (msgs ++ [(⟨event.handle, (s.handles event.handle).callback⟩ : Addition)]).countP
      (isOf n) ≤ _ + msgs.countP (isOf n) + _
    rw [List.countP_append, List.countP_singleton]
    show _ + (_ + (if decide ((s.handles event.handle).callback = some n) = true then 1 else 0)) ≤ _
    cases decide ((s.handles event.handle).callback = some n) with
    | false => exact le_refl _
    | true => exact le_refl _

/-- A `CANCEL_EVENT` for a slot in use is about the request in it, which is cancelled. -/
theorem clean_cancelsHandle (h : Clean s) (hphase : s.phase = .events msgs)
    (hevents : s.events = event :: events) (huse : (s.handles event.handle).inUse = true)
    (htype : event.type = .CANCEL_EVENT) :
    Clean { { s with events := events }.record (.removed (s.handles event.handle).callback
        (.cancelEvent event.request)) with
      multi := s.multi.remove event.handle
      completing := some (.called event.handle ⟨.OPERATION_TIMEDOUT, 0, false⟩
        (.cancelEvent event.request)) } := by
  have hrequest := h.request_eq hevents huse
  have hcancelled : Effect.cancelled event.request ∈ s.history :=
    h.cancelEvents event (by rw [hevents]; exact List.mem_cons_self) htype
  have hother : ∀ n, isSendOf n event = false := by
    intro n
    unfold isSendOf
    rw [htype]
    rfl
  refine h.of_worker rfl rfl [.removed (s.handles event.handle).callback
    (.cancelEvent event.request)] rfl rfl (fun _ => rfl) ?_ ?_ (fun n => ?_)
    (fun n hn => ?_) fun n hn effect heffect => ?_
  · refine
      { events := fun event' hevent => Or.inl ?_, rejected := fun _ => Or.inl
        added := fun addition haddition => Or.inl (mem_remove.mp haddition).1
        messages := messages_removeAll h.messages _, lost_nodup := h.lost_nodup
        lost := fun slot hslot => ?_ }
    · rw [hevents]
      exact List.mem_cons_of_mem event hevent
    · have hslot' : slot ∈ lostHandles s.phase := hslot
      rw [hphase] at hslot'
      exact absurd hslot' List.not_mem_nil
  · exact ⟨gone_remove _ _, List.mem_cons_of_mem _ hcancelled, rfl, fun _ => hrequest⟩
  · have hsplit := sendEvents_cons hevents n
    have hle := countP_removeAll_le s.multi (fun other => other = event.handle) n
    unfold attemptsOpen
    show (slotOf (s.sends n)).isSome.toNat + events.countP (isSendOf n) +
      (s.multi.removeAll fun other => other = event.handle).added.countP (isOf n) +
      (rejectedIn s.phase).countP (isOf n) + 0 ≤ _
    rw [hsplit]
    omega
  · have hsplit := sendEvents_cons hevents n
    rw [hother, Bool.toNat_false, Nat.add_zero] at hsplit
    rw [hsplit]
    exact Nat.zero_add _
  · rw [List.mem_singleton] at heffect
    subst heffect
    intro hholder
    rw [hrequest, hholder] at hcancelled
    exact absurd hcancelled hn

end Handled

/-! ### Handles are rejected, finished and lost -/

/-- Curl has no handle in a slot that it has rejected before. -/
theorem Clean.gone_of_rejected (h : Clean s) {addition : Addition}
    (hrejected : addition ∈ rejectedIn s.phase) : Gone s addition.slot := by
  intro other hother heq
  obtain ⟨huse, hrequest⟩ := h.added other hother
  obtain ⟨n, hn, -⟩ := h.held other.slot huse
  have hsame : addition.request = some n := by
    rw [heq] at huse hn
    rw [h.rejected addition hrejected huse, hn]
  have hadded : 0 < s.multi.added.countP (isOf n) :=
    List.countP_pos_iff.mpr ⟨other, hother, decide_eq_true (hrequest.trans hn)⟩
  have hrejected' : 0 < (rejectedIn s.phase).countP (isOf n) :=
    List.countP_pos_iff.mpr ⟨addition, hrejected, decide_eq_true hsame⟩
  have hle := h.open_le n
  unfold attemptsOpen at hle
  omega

theorem clean_failsNext (h : Clean s) {msg : Addition} {msgs : List Addition}
    (hcompleting : s.completing = none) (hphase : s.phase = .failing (msg :: msgs)) :
    Clean { s with
      phase := .failing msgs
      completing := some (.called msg.slot ⟨.COULDNT_CONNECT, 0, false⟩
        (.addition msg.request)) } := by
  have hmem : msg ∈ rejectedIn s.phase := by
    rw [hphase]
    exact List.mem_cons_self
  refine h.of_worker rfl rfl [] rfl rfl (fun _ => rfl)
    (h.queuesClean (fun _ => id) ?_ rfl (Or.inr rfl)) ?_ (fun n => ?_) (fun n _ => Nat.zero_add _)
    fun _ _ _ heffect => absurd heffect List.not_mem_nil
  · rw [hphase]
    exact fun _ => List.mem_cons_of_mem msg
  · exact ⟨h.gone_of_rejected hmem, trivial, rfl, h.rejected msg hmem⟩
  · unfold attemptsOpen
    rw [hcompleting, hphase]
    show _ + _ + _ + msgs.countP (isOf n) + (decide (msg.request = some n)).toNat ≤
      _ + _ + _ + (msg :: msgs).countP (isOf n) + 0
    rw [List.countP_cons]
    show _ ≤ _ + _ + _ + (_ + if decide (msg.request = some n) = true then 1 else 0) + 0
    unfold sendEvents
    cases decide (msg.request = some n) with
    | false => exact le_refl _
    | true => exact le_refl _

/-- A handle is removed because of what became of its addition. -/
theorem Clean.of_removed (h : Clean s) {addition : Addition} {outcome : Outcome} {cause : Cause}
    (hmem : addition ∈ s.multi.added) (hcompleting : s.completing = none)
    (hrequest : requestOf cause = addition.request) (hcause : isCancelEvent cause = false)
    (hmatches : Matches cause outcome) (hhandles : s'.handles = s.handles)
    (hsends : s'.sends = s.sends) (hevents : s'.events = s.events)
    (hmulti : s'.multi = s.multi.remove addition.slot)
    (hcompleting' : s'.completing = some (.called addition.slot outcome cause))
    (hhistory : s'.history = [.removed (s.handles addition.slot).callback cause] ++ s.history)
    (hrejected : rejectedIn s.phase = [] ∧ rejectedIn s'.phase = [])
    (hlost_nodup : (lostHandles s'.phase).Nodup)
    (hlost : ∀ slot ∈ lostHandles s'.phase,
      slot ≠ addition.slot ∧ (s.multi.find slot).isSome = true) : Clean s' := by
  obtain ⟨huse, hholder⟩ := h.added addition hmem
  refine h.of_worker hhandles hsends _ hhistory rfl (fun _ => rfl) ?_ ?_ (fun n => ?_)
    (fun n _ => ?_) fun n hn effect heffect => ?_
  · refine
      { events := fun event hevent => Or.inl (hevents ▸ hevent)
        rejected := fun other hother => ?_, added := fun other hother => Or.inl ?_
        messages := ?_, lost_nodup := hlost_nodup, lost := fun slot hslot => ?_ }
    · rw [hrejected.2] at hother
      exact absurd hother List.not_mem_nil
    · rw [hmulti] at hother
      exact (mem_remove.mp hother).1
    · rw [hmulti]
      exact messages_removeAll h.messages _
    · rw [hmulti]
      exact isSome_find_remove (hlost slot hslot).1 (hlost slot hslot).2
  · unfold CompletingClean
    rw [hcompleting']
    refine ⟨?_, ?_, hmatches, fun _ => ?_⟩
    · unfold Gone
      rw [hmulti]
      exact gone_remove _ _
    · cases cause with
      | cancelEvent request => cases hcause
      | _ => trivial
    · rw [hhandles, hrequest, hholder]
  · have hle := countP_remove_of_mem (n := n) hmem
    have hattempt : attemptIn s' s'.completing = addition.request := by
      rw [hcompleting']
      show (if isCancelEvent cause then none else requestOf cause) = _
      rw [hcause, hrequest]
      rfl
    unfold attemptsOpen sendEvents
    rw [hattempt, hsends, hevents, hmulti, hrejected.1, hrejected.2, hcompleting]
    show _ ≤ _ + _ + _ + _ + 0
    omega
  · unfold sendEvents
    rw [hevents]
    exact Nat.zero_add _
  · rw [List.mem_singleton] at heffect
    subst heffect
    intro hn'
    exact own_of_request (hrequest.trans (hholder.trans hn')) hcause

theorem clean_reads (h : Clean s) {message : Message} {messages : List Message} {completed : Bool}
    (hcompleting : s.completing = none) (hphase : s.phase = .messages completed)
    (hmessages : s.multi.messages = message :: messages) :
    Clean { s.record (.removed (s.handles message.addition.slot).callback (.transfer message)) with
      multi := s.multi.remove message.addition.slot
      phase := .messages true
      completing := some (.called message.addition.slot message.outcome (.transfer message)) } := by
  have hmem : message.addition ∈ s.multi.added :=
    h.messages message (by rw [hmessages]; exact List.mem_cons_self)
  have hmatches : Matches (.transfer message) message.outcome := rfl
  refine h.of_removed hmem hcompleting rfl rfl hmatches rfl rfl rfl rfl rfl rfl ⟨?_, rfl⟩
    List.nodup_nil fun slot hslot => absurd hslot List.not_mem_nil
  rw [hphase]
  rfl

theorem clean_releasesLost (h : Clean s) {slot : Slot} {lost : List Slot}
    (hcompleting : s.completing = none) (hphase : s.phase = .releasing (slot :: lost)) :
    Clean { s.record (.removed (s.handles slot).callback
        (.lost ((s.multi.find slot).bind Addition.request))) with
      multi := s.multi.remove slot
      phase := .releasing lost
      completing := some (.called slot ⟨.OPERATION_TIMEDOUT, 0, false⟩
        (.lost ((s.multi.find slot).bind Addition.request))) } := by
  have hlost := h.lost
  have hnodup := h.lost_nodup
  rw [hphase] at hlost hnodup
  obtain ⟨addition, hfound⟩ := Option.isSome_iff_exists.mp (hlost slot List.mem_cons_self)
  obtain ⟨hmem, rfl⟩ := find_some hfound
  rw [hfound]
  obtain ⟨hnot, hrest⟩ := List.nodup_cons.mp hnodup
  have hmatches : Matches (.lost addition.request) ⟨.OPERATION_TIMEDOUT, 0, false⟩ := rfl
  refine h.of_removed hmem hcompleting rfl rfl hmatches rfl rfl rfl rfl rfl rfl ⟨?_, rfl⟩ hrest
    fun other hother => ⟨?_, hlost other (List.mem_cons_of_mem _ hother)⟩
  · rw [hphase]
    rfl
  · rintro rfl
    exact hnot hother

/-! ### The other steps of the worker -/

/-- Outside of `CompleteMessage` an open attempt is in one of the other places. -/
theorem attemptsOpen_le_of_places {n : ℕ} (hcompleting : s.completing = none)
    (hcompleting' : s'.completing = none) (hsends : s'.sends = s.sends)
    (hevents : s'.events = s.events)
    (hadded : s'.multi.added.countP (isOf n) ≤ s.multi.added.countP (isOf n))
    (hrejected : (rejectedIn s'.phase).countP (isOf n) ≤ (rejectedIn s.phase).countP (isOf n)) :
    attemptsOpen s' n ≤ attemptsOpen s n := by
  unfold attemptsOpen sendEvents
  rw [hcompleting, hcompleting', hsends, hevents]
  show _ + _ + _ + _ + 0 ≤ _ + _ + _ + _ + 0
  omega

/-- A step of the worker that removes and completes nothing. -/
theorem Clean.of_goesOn (h : Clean s) (hcompleting : s.completing = none)
    (hhandles : ∀ slot, SameSlot (s.handles slot) (s'.handles slot)) (hsends : s'.sends = s.sends)
    (hevents : s'.events = s.events) (hcompleting' : s'.completing = none)
    (hhistory : s'.history = s.history) (hqueues : QueuesClean s s')
    (hadded : ∀ n, s'.multi.added.countP (isOf n) ≤ s.multi.added.countP (isOf n))
    (hrejected : ∀ n, (rejectedIn s'.phase).countP (isOf n) ≤
      (rejectedIn s.phase).countP (isOf n)) : Clean s' := by
  have hmono : ∀ request, Effect.cancelled request ∈ s.history →
      Effect.cancelled request ∈ s'.history := by
    rw [hhistory]
    exact fun _ => id
  have htaken : taken s' = taken s := by
    unfold taken
    rw [hhistory]
  have hkeeps := keepsSlots_of_worker hhandles hsends htaken hmono
  refine h.of_keeps hkeeps hqueues ?_
    (fun n => attemptsOpen_le_of_places hcompleting hcompleting' hsends hevents (hadded n)
      (hrejected n)) (fun n hn => ?_) fun n hn => ?_
  · unfold CompletingClean
    rw [hcompleting']
    trivial
  · have honce := h.once n hn
    unfold additions attempts sendEvents at honce ⊢
    rw [hhistory, hevents]
    exact honce
  · rw [hhistory]
    exact h.own n (hn.of_keeps hkeeps)

theorem rejectedIn_moves {state : WorkerState} {phase : Phase} (hmoves : PhaseMoves s state phase) :
    (∀ addition ∈ rejectedIn phase, addition ∈ rejectedIn s.phase) ∧
      ∀ n, (rejectedIn phase).countP (isOf n) ≤ (rejectedIn s.phase).countP (isOf n) := by
  rcases hmoves.rejected_eq with heq | heq
  · rw [heq]
    exact ⟨fun _ => id, fun _ => le_refl _⟩
  · rw [heq]
    exact ⟨fun _ hmem => absurd hmem List.not_mem_nil, fun _ => Nat.zero_le _⟩

theorem clean_moves (h : Clean s) {state : WorkerState} {phase : Phase}
    (hcompleting : s.completing = none) (hmoves : PhaseMoves s state phase) :
    Clean { s with state := state, phase := phase } :=
  h.of_goesOn hcompleting (fun _ => SameSlot.refl _) rfl rfl hcompleting rfl
    (h.queuesClean (fun _ => id) (rejectedIn_moves hmoves).1 rfl hmoves.lost_eq)
    (fun _ => le_refl _) (rejectedIn_moves hmoves).2

theorem clean_findsLost (h : Clean s) {lost : Slot → Bool} (hcompleting : s.completing = none)
    (hfresh : Fresh s (.worker (.findLost lost))) :
    Clean { s with phase := .found ((List.finRange kTotalHandleCount).filter fun slot =>
      (s.handles slot).inUse && lost slot) } := by
  refine h.of_goesOn hcompleting (fun _ => SameSlot.refl _) rfl rfl hcompleting rfl ?_
    (fun _ => le_refl _) fun _ => Nat.zero_le _
  refine
    { events := fun _ => Or.inl, rejected := fun _ hmem => absurd hmem List.not_mem_nil
      added := fun _ => Or.inl, messages := h.messages
      lost_nodup := (List.nodup_finRange _).filter _, lost := fun slot hslot => ?_ }
  have hfound := (List.mem_filter.mp hslot).2
  rw [Bool.and_eq_true] at hfound
  exact hfresh slot hfound.1 hfound.2

theorem clean_transfers (h : Clean s) {addition : Addition} (a : Attempt)
    (hcompleting : s.completing = none) (hphase : s.phase = .performing)
    (hfinish : s.multi.canFinish addition = true) :
    Clean { s.setHandle addition.slot (a.chunks.foldl (rxFunction s.isStarted a.status)
        (if s.isStarted && !(s.handles addition.slot).cancelled then
          receiveHeader a (s.handles addition.slot) else s.handles addition.slot)) with
      multi := s.multi.finish ⟨addition, a.result, a.status, a.tookLong⟩ } := by
  have hhandles := sameSlot_setHandle s
    (sameSlot_of_sameRequest (sameRequest_transfer s.isStarted a (s.handles addition.slot)))
  unfold Multi.canFinish at hfinish
  rw [Bool.and_eq_true, decide_eq_true_eq] at hfinish
  refine h.of_goesOn hcompleting hhandles rfl rfl hcompleting rfl ?_ (fun _ => le_refl _)
    fun _ => le_refl _
  refine
    { events := fun _ => Or.inl, rejected := fun _ => Or.inl, added := fun _ => Or.inl
      messages := fun message hmessage => ?_, lost_nodup := h.lost_nodup
      lost := fun slot hslot => ?_ }
  · rcases List.mem_append.mp hmessage with hold | hnew
    · exact h.messages message hold
    · rw [List.mem_singleton] at hnew
      subst hnew
      exact hfinish.1
  · have hslot' : slot ∈ lostHandles s.phase := hslot
    rw [hphase] at hslot'
    exact absurd hslot' List.not_mem_nil

theorem clean_cleans (h : Clean s) (cleaned : Slot → Bool) (hcompleting : s.completing = none) :
    Clean { s with
      handles := fun slot => { s.handles slot with
        handle := (s.handles slot).handle && !cleaned slot }
      multi := s.multi.removeAll cleaned
      phase := .looping } :=
  h.of_goesOn hcompleting (fun _ => ⟨rfl, rfl, rfl⟩) rfl rfl hcompleting rfl
    { events := fun _ => Or.inl, rejected := fun _ hmem => absurd hmem List.not_mem_nil
      added := fun _ hmem => Or.inl (mem_removeAll.mp hmem).1
      messages := messages_removeAll h.messages cleaned, lost_nodup := List.nodup_nil
      lost := fun _ hslot => absurd hslot List.not_mem_nil }
    (countP_removeAll_le s.multi cleaned) fun _ => Nat.zero_le _

/-! ### Inside `CompleteMessage` -/

theorem Clean.completing_called (h : Clean s) {slot : Slot} {outcome : Outcome} {cause : Cause}
    (hcase : s.completing = some (.called slot outcome cause)) :
    Gone s slot ∧ CancelKnown s cause ∧ Matches cause outcome ∧
      ((s.handles slot).inUse = true → requestOf cause = (s.handles slot).callback) := by
  have hcompleting := h.completing
  unfold CompletingClean at hcompleting
  rw [hcase] at hcompleting
  exact hcompleting

theorem Clean.completing_found (h : Clean s) {slot : Slot} {callback : ℕ} {outcome : Outcome}
    {cause : Cause} (hcase : s.completing = some (.found slot callback outcome cause)) :
    Gone s slot ∧ CancelKnown s cause ∧ Matches cause outcome ∧ HeldBy s slot callback ∧
      requestOf cause = some callback := by
  have hcompleting := h.completing
  unfold CompletingClean at hcompleting
  rw [hcase] at hcompleting
  exact hcompleting

theorem Clean.completing_releasing (h : Clean s) {slot : Slot} {callback id : ℕ} {status : ℤ}
    {cause : Cause} (hcase : s.completing = some (.releasing slot callback id status cause)) :
    Gone s slot ∧ CancelKnown s cause ∧ HeldBy s slot callback ∧ requestOf cause = some callback ∧
      (NotCancelled s callback → OwnOutcome callback cause status) := by
  have hcompleting := h.completing
  unfold CompletingClean at hcompleting
  rw [hcase] at hcompleting
  exact hcompleting

theorem clean_answersCancelled (h : Clean s) {slot : Slot} {outcome : Outcome} {cause : Cause}
    {callback : ℕ} (hcase : s.completing = some (.called slot outcome cause))
    (huse : (s.handles slot).inUse = true)
    (hcallback : (s.handles slot).callback = some callback)
    (hcancelled : (s.handles slot).cancelled = true) :
    Clean { s.setHandle slot (releaseHandleUnlocked (s.handles slot)) with
      completing := some (.answering callback (s.handles slot).id
        ErrorCode.CANCELLED_ERROR.value cause) } := by
  obtain ⟨hgone, hknown, -, hrequest⟩ := h.completing_called hcase
  refine clean_releases h hgone hknown ⟨huse, hcallback⟩ ((hrequest huse).trans hcallback)
    (by rw [hcase]; rfl) fun hn => ?_
  have hflagged := h.flagged slot huse hcancelled
  rw [hcallback] at hflagged
  exact absurd hflagged hn

theorem clean_finds (h : Clean s) {slot : Slot} {outcome : Outcome} {cause : Cause}
    {callback : ℕ} (hcase : s.completing = some (.called slot outcome cause))
    (huse : (s.handles slot).inUse = true)
    (hcallback : (s.handles slot).callback = some callback) :
    Clean { s with completing := some (.found slot callback outcome cause) } := by
  obtain ⟨hgone, hknown, hmatches, hrequest⟩ := h.completing_called hcase
  refine h.of_completing (fun _ => SameSlot.refl _) rfl rfl rfl rfl (Or.inl rfl)
    ⟨hgone, hknown, hmatches, ⟨huse, hcallback⟩, (hrequest huse).trans hcallback⟩ fun n hn => ?_
  rw [hcase]
  exact hn

theorem clean_decides (h : Clean s) {slot : Slot} {outcome : Outcome} {cause : Cause}
    {callback : ℕ} {status : ℤ} {completing : Completing}
    (hcase : s.completing = some (.found slot callback outcome cause))
    (hstatus : status = attemptStatus (s.handles slot) outcome.result outcome.httpStatus
      outcome.tookLong)
    (hdecision : completing = .retrying slot ∧ isRetryStatus status = true ∨
      ∃ id, completing = .releasing slot callback id status cause) :
    Clean { s.setHandle slot (retry (s.handles slot) status).1 with
      completing := some completing } := by
  obtain ⟨hgone, hknown, hmatches, ⟨huse, hcallback⟩, hrequest⟩ := h.completing_found hcase
  have hhandles := sameSlot_setHandle s
    (sameSlot_of_sameRequest (sameRequest_retry (s.handles slot) status))
  have huse' := (hhandles slot).inUse.trans huse
  have hcallback' := (hhandles slot).callback.trans hcallback
  rcases hdecision with ⟨rfl, hretry⟩ | ⟨id, rfl⟩
  · refine h.of_completing hhandles rfl rfl rfl rfl (Or.inl rfl) huse' fun n hn => ?_
    rw [hstatus] at hretry
    have hcause := isCancelEvent_of_retry hmatches hretry
    have hn' : some callback = some n := hcallback'.symm.trans hn
    rw [hcase]
    show (if isCancelEvent cause then none else requestOf cause) = some n
    rw [hcause, hrequest]
    exact hn'
  · refine h.of_completing hhandles rfl rfl rfl rfl (Or.inl rfl) ?_ fun n hn => ?_
    · refine ⟨hgone, hknown, ⟨huse', hcallback'⟩, hrequest, fun hn => ?_⟩
      rw [hstatus]
      exact ownOutcome_of_matches hmatches hrequest
        (isCancelEvent_of_notCancelled hknown hrequest hn) _
    · rw [hcase]
      exact hn

theorem clean_answers (h : Clean s) {callback id : ℕ} {status : ℤ} {cause : Cause}
    (hcase : s.completing = some (.answering callback id status cause)) :
    Clean { s.record (.answered callback cause id status) with completing := some .returned } := by
  have hstatus : NotCancelled s callback → OwnOutcome callback cause status := by
    have hcompleting := h.completing
    unfold CompletingClean at hcompleting
    rw [hcase] at hcompleting
    exact hcompleting
  refine h.of_completing (fun _ => SameSlot.refl _) rfl rfl rfl rfl
    (Or.inr ⟨callback, cause, id, status, rfl, hstatus⟩) trivial fun n hn => ?_
  cases hn

/-! ## Runs -/

/-- The worker is in its loop. -/
def InLoop : Phase → Prop
  | .ended => False
  | .starting => False
  | .leaving => False
  | .offline _ => False
  | _ => True

/-- The worker is started and not asked to stop. -/
structure AtWork (s : CurlState) : Prop where
  inLoop : InLoop s.phase
  started : s.state = .STARTED

/-- The worker is not started yet. -/
structure Idle (s : CurlState) : Prop where
  state : s.state = .STOPPED
  phase : s.phase = .ended ∨ s.phase = .starting
  completing : s.completing = none
  events : s.events = []
  multi : s.multi = Multi.empty
  history : s.history = []
  unused : ∀ slot, (s.handles slot).inUse = false
  sends : ∀ n, (∃ r, s.sends n = .called r) ∨ s.sends n = .notCalled ∨
    s.sends n = .failed .notStarted

/-- What holds in every state. -/
structure CancelInv (s : CurlState) : Prop where
  stops : s.stops = 0
  clean : Idle s ∨ AtWork s ∧ Clean s

theorem AtWork.isStarted (h : AtWork s) : s.isStarted = true := decide_eq_true h.started

/-- The phases that the loop of the worker does not have. -/
theorem AtWork.phase_ne (h : AtWork s) {phase : Phase} (hnot : ¬ InLoop phase) :
    s.phase ≠ phase := by
  intro heq
  rw [← heq] at hnot
  exact hnot h.inLoop

/-- Nothing stops the worker. -/
theorem atWork_step (h : AtWork s) (hstops : s.stops = 0) {event : CurlEvent}
    (hfresh : Fresh s event) (hstep : s.step event = some s') : AtWork s' := by
  cases transition_of_step hstep with
  | initializes hended => exact absurd hended (h.phase_ne id)
  | deinitializes stops => exact absurd hfresh id
  | stops hstops' => exact absurd hstops hstops'
  | moves state phase hcompleting hmoves =>
    refine ⟨?_, (hmoves.state_eq (h.phase_ne id)).trans h.started⟩
    cases phase with
    | ended => exact absurd hmoves.running' id
    | starting => exact absurd rfl hmoves.notStarting
    | leaving =>
      have hstopped := hmoves.leaving rfl
      rw [h.isStarted] at hstopped
      cases hstopped
    | offline completedMessages => exact absurd hmoves.running' id
    | _ => trivial
  | findsLost lost hcompleting hphase => exact ⟨trivial, h.started⟩
  | rejects hcompleting hphase hevents huse htype => exact ⟨trivial, h.started⟩
  | failsNext hcompleting hphase => exact ⟨trivial, h.started⟩
  | reads hcompleting hphase hmessages => exact ⟨trivial, h.started⟩
  | releasesLost hcompleting hphase => exact ⟨trivial, h.started⟩
  | cleans cleaned hcompleting hphase hcleaned => exact ⟨trivial, h.started⟩
  | tearsDown hcompleting hphase => exact absurd hphase (h.phase_ne id)
  | answersOffline hcompleting hphase => exact absurd hphase (h.phase_ne id)
  | ends hcompleting hphase => exact absurd hphase (h.phase_ne id)
  | _ => exact ⟨h.inLoop, h.started⟩

theorem clean_step (h : Clean s) (hwork : AtWork s) (hstops : s.stops = 0) {event : CurlEvent}
    (hfresh : Fresh s event) (hstep : s.step event = some s') : Clean s' := by
  have hsame : ∀ slot, SameSlot (s.handles slot) (s.handles slot) := fun _ => SameSlot.refl _
  have hcall : ∀ (n : ℕ) (after : SendState),
      (slotOf after = slotOf (s.sends n) ∨ slotOf after = none) →
      (isBefore after = true → isBefore (s.sends n) = true) →
      (∀ m, slotOf (Function.update s.sends n after m) = slotOf (s.sends m) ∨
        slotOf (Function.update s.sends n after m) = none) ∧
      ∀ m, isBefore (Function.update s.sends n after m) = true → isBefore (s.sends m) = true := by
    intro n after hslot hbefore
    refine ⟨fun m => ?_, fun m hm => ?_⟩
    · by_cases heq : m = n
      · subst heq
        rw [Function.update_self]
        exact hslot
      · rw [Function.update_of_ne heq]
        exact Or.inl rfl
    · by_cases heq : m = n
      · subst heq
        rw [Function.update_self] at hm
        exact hbefore hm
      · rwa [Function.update_of_ne heq] at hm
  cases transition_of_step hstep with
  | initializes hended => exact absurd hended (hwork.phase_ne id)
  | deinitializes stops => exact absurd hfresh id
  | stops hstops' => exact absurd hstops hstops'
  | cancels cancels =>
    exact h.of_callers hsame (fun _ => Or.inl rfl) (fun _ => id) rfl rfl rfl rfl rfl
  | @sendMoves _ n after hmoves =>
    obtain ⟨hslot, hbefore⟩ := hcall n _ (Or.inl hmoves.slotOf_eq) hmoves.isBefore
    exact h.of_callers hsame hslot hbefore rfl rfl rfl rfl rfl
  | @sendFails _ n slot error hsend hevent =>
    obtain ⟨hslot, hbefore⟩ := hcall n (.failed error) (Or.inr rfl)
      fun hfalse => by cases hfalse
    exact h.of_callers hsame hslot hbefore rfl rfl rfl rfl rfl
  | takes created hsend hfree => exact clean_takes h hsend hfree hfresh
  | @configures n r slot hsend =>
    obtain ⟨hslot, hbefore⟩ := hcall n (.settingOptions slot)
      (Or.inl (by rw [hsend]; rfl)) fun hfalse => by cases hfalse
    exact h.of_callers (sameSlot_setHandle s ⟨rfl, rfl, rfl⟩) hslot hbefore rfl rfl rfl rfl rfl
  | queues hsend => exact clean_queues h hsend
  | marks id cancels huse => exact clean_marks h cancels huse
  | unknown hcase hunknown =>
    refine h.of_completing hsame rfl rfl rfl rfl (Or.inl rfl) trivial fun n hn => ?_
    cases hn
  | @drops slot _ _ hcase huse hcallback =>
    obtain ⟨n, hn, -⟩ := h.held slot huse
    rw [hcallback] at hn
    cases hn
  | answersCancelled hcase huse hhandle hcallback hcancelled =>
    exact clean_answersCancelled h hcase huse hcallback hcancelled
  | finds hcase huse hhandle hcallback => exact clean_finds h hcase huse hcallback
  | decides completing hcase hstatus hdecision => exact clean_decides h hcase hstatus hdecision
  | retries hcase => exact clean_retries h hcase
  | releases hcase =>
    obtain ⟨hgone, hknown, hby, hrequest, hstatus⟩ := h.completing_releasing hcase
    exact clean_releases h hgone hknown hby hrequest (by rw [hcase]; rfl) hstatus
  | answers hcase => exact clean_answers h hcase
  | returns hcase =>
    refine h.of_completing hsame rfl rfl rfl rfl (Or.inl rfl) trivial fun n hn => ?_
    cases hn
  | moves state phase hcompleting hmoves => exact clean_moves h hcompleting hmoves
  | findsLost lost hcompleting hphase => exact clean_findsLost h hcompleting hfresh
  | skips hcompleting hphase hevents huse => exact clean_skips h hcompleting hevents huse
  | adds hcompleting hphase hevents huse htype hnone =>
    exact clean_adds h hcompleting hphase hevents huse htype
  | rejects hcompleting hphase hevents huse htype =>
    exact clean_rejects h hcompleting hphase hevents huse htype
  | cancelsHandle hcompleting hphase hevents huse htype =>
    exact clean_cancelsHandle h hphase hevents huse htype
  | failsNext hcompleting hphase => exact clean_failsNext h hcompleting hphase
  | transfers a hcompleting hphase hfinish => exact clean_transfers h a hcompleting hphase hfinish
  | reads hcompleting hphase hmessages => exact clean_reads h hcompleting hphase hmessages
  | releasesLost hcompleting hphase => exact clean_releasesLost h hcompleting hphase
  | cleans cleaned hcompleting hphase hcleaned => exact clean_cleans h cleaned hcompleting
  | tearsDown hcompleting hphase => exact absurd hphase (hwork.phase_ne id)
  | answersOffline hcompleting hphase => exact absurd hphase (hwork.phase_ne id)
  | ends hcompleting hphase => exact absurd hphase (hwork.phase_ne id)

/-- A call that has not got to `GetHandle` has no slot. -/
theorem Idle.isBefore_or_failed (h : Idle s) (n : ℕ) : slotOf (s.sends n) = none := by
  rcases h.sends n with ⟨r, hsend⟩ | hsend | hsend
  · rw [hsend]
    rfl
  · rw [hsend]
    rfl
  · rw [hsend]
    rfl

/-- Nothing is queued when the worker starts. -/
theorem Idle.clean (h : Idle s) (state : WorkerState) :
    Clean { s with state := state, phase := .looping } := by
  have hopen : ∀ n, attemptsOpen { s with state := state, phase := .looping } n = 0 := by
    intro n
    unfold attemptsOpen sendEvents
    show (slotOf (s.sends n)).isSome.toNat + s.events.countP (isSendOf n) +
      s.multi.added.countP (isOf n) + 0 +
      (decide (attemptIn _ s.completing = some n)).toNat = 0
    rw [h.isBefore_or_failed, h.events, h.multi, h.completing]
    rfl
  have hunused : ∀ {p : Prop} (slot : Slot), (s.handles slot).inUse = true → p := by
    intro p slot huse
    rw [h.unused slot] at huse
    cases huse
  have hevents : ∀ event, event ∉ s.events := by
    rw [h.events]
    exact fun _ => List.not_mem_nil
  have hadded : ∀ addition, addition ∉ s.multi.added := by
    rw [h.multi]
    exact fun _ => List.not_mem_nil
  have hhistory : ∀ effect, effect ∉ s.history := by
    rw [h.history]
    exact fun _ => List.not_mem_nil
  refine
    { held := fun slot huse => hunused slot huse, before := fun n _ => ?_
      flagged := fun slot huse => hunused slot huse
      events := fun event hevent => absurd hevent (hevents event)
      cancelEvents := fun event hevent => absurd hevent (hevents event)
      rejected := fun _ hmem => absurd hmem List.not_mem_nil
      sends := fun n slot _ huse => hunused slot huse
      added := fun addition hmem => absurd hmem (hadded addition), messages := ?_
      lost_nodup := List.nodup_nil, lost := fun _ hslot => absurd hslot List.not_mem_nil
      completing := ?_, open_le := fun n => ?_, taken_of_open := fun n hn => absurd (hopen n) hn
      sends_held := fun n slot _ hslot => ?_
      events_held := fun n _ event hevent => absurd hevent (hevents event)
      once := fun n _ => ?_, own := fun n _ effect heffect => absurd heffect (hhistory effect) }
  · unfold taken
    rw [h.history]
    exact List.not_mem_nil
  · rw [h.multi]
    exact fun _ hmem => absurd hmem List.not_mem_nil
  · unfold CompletingClean
    dsimp only
    rw [h.completing]
    trivial
  · rw [hopen n]
    exact Nat.zero_le 1
  · have hnone : slotOf (s.sends n) = some slot := hslot
    rw [h.isBefore_or_failed] at hnone
    cases hnone
  · unfold additions attempts sendEvents
    dsimp only
    rw [h.history, h.events]
    rfl

theorem idle_step (h : Idle s) (hstops : s.stops = 0) {event : CurlEvent} (hfresh : Fresh s event)
    (hstep : s.step event = some s') : Idle s' ∨ AtWork s' ∧ Clean s' := by
  have hnot : s.isStarted = false := by
    unfold CurlState.isStarted
    rw [h.state]
    rfl
  have hslot := h.isBefore_or_failed
  have hphase : ∀ {phase : Phase}, phase ≠ .ended → phase ≠ .starting → s.phase ≠ phase := by
    rintro phase hended hstarting rfl
    rcases h.phase with heq | heq
    · exact hended heq
    · exact hstarting heq
  have hnone := h.completing
  cases transition_of_step hstep with
  | initializes hended =>
    exact Or.inl ⟨h.state, Or.inr rfl, h.completing, h.events, rfl, h.history, fun _ => rfl,
      h.sends⟩
  | deinitializes stops => exact absurd hfresh id
  | stops hstops' => exact absurd hstops hstops'
  | cancels cancels =>
    exact Or.inl ⟨h.state, h.phase, h.completing, h.events, h.multi, h.history, h.unused, h.sends⟩
  | @sendMoves _ n after hmoves =>
    have hafter : (∃ r, after = .called r) ∨ after = .notCalled ∨ after = .failed .notStarted := by
      rcases h.sends n with ⟨r, hsend⟩ | hsend | hsend
      · rw [hsend] at hmoves
        cases hmoves with
        | gettingHandle r hstarted =>
          rw [hnot] at hstarted
          cases hstarted
        | notStarted r => exact Or.inr (Or.inr rfl)
      · rw [hsend] at hmoves
        cases hmoves with
        | called r => exact Or.inl ⟨r, rfl⟩
      · rw [hsend] at hmoves
        cases hmoves
    refine Or.inl ⟨h.state, h.phase, h.completing, h.events, h.multi, h.history, h.unused,
      fun m => ?_⟩
    show (∃ r, Function.update s.sends n after m = .called r) ∨
      Function.update s.sends n after m = .notCalled ∨
      Function.update s.sends n after m = .failed .notStarted
    by_cases heq : m = n
    · subst heq
      rw [Function.update_self]
      exact hafter
    · rw [Function.update_of_ne heq]
      exact h.sends m
  | @sendFails _ n slot error hsend hevent =>
    have hsome := hslot n
    rw [hsend] at hsome
    cases hsome
  | @takes n r slot created hsend hfree =>
    rcases h.sends n with ⟨r', hother⟩ | hother | hother
    · rw [hsend] at hother
      cases hother
    · rw [hsend] at hother
      cases hother
    · rw [hsend] at hother
      cases hother
  | @configures n r slot hsend =>
    have hsome := hslot n
    rw [hsend] at hsome
    cases hsome
  | @queues n slot hsend =>
    have hsome := hslot n
    rw [hsend] at hsome
    cases hsome
  | @marks slot id cancels huse =>
    rw [h.unused slot] at huse
    cases huse
  | unknown hcase hunknown => rw [hnone] at hcase; cases hcase
  | drops hcase huse hcallback => rw [hnone] at hcase; cases hcase
  | answersCancelled hcase huse hhandle hcallback hcancelled => rw [hnone] at hcase; cases hcase
  | finds hcase huse hhandle hcallback => rw [hnone] at hcase; cases hcase
  | decides completing hcase hstatus hdecision => rw [hnone] at hcase; cases hcase
  | retries hcase => rw [hnone] at hcase; cases hcase
  | releases hcase => rw [hnone] at hcase; cases hcase
  | answers hcase => rw [hnone] at hcase; cases hcase
  | returns hcase => rw [hnone] at hcase; cases hcase
  | moves state phase hcompleting hmoves =>
    have hstarting : s.phase = .starting := by
      rcases h.phase with hended | hstarting
      · have hrunning := hmoves.running
        rw [hended] at hrunning
        cases hrunning
      · exact hstarting
    obtain ⟨rfl, rfl⟩ := hmoves.starts hstarting
    exact Or.inr ⟨⟨trivial, rfl⟩, h.clean .STARTED⟩
  | findsLost lost hcompleting heq => exact absurd heq (hphase (by rintro ⟨⟩) (by rintro ⟨⟩))
  | skips hcompleting heq hevents huse =>
    exact absurd heq (hphase (by rintro ⟨⟩) (by rintro ⟨⟩))
  | adds hcompleting heq hevents huse htype hnone =>
    exact absurd heq (hphase (by rintro ⟨⟩) (by rintro ⟨⟩))
  | rejects hcompleting heq hevents huse htype =>
    exact absurd heq (hphase (by rintro ⟨⟩) (by rintro ⟨⟩))
  | cancelsHandle hcompleting heq hevents huse htype =>
    exact absurd heq (hphase (by rintro ⟨⟩) (by rintro ⟨⟩))
  | failsNext hcompleting heq => exact absurd heq (hphase (by rintro ⟨⟩) (by rintro ⟨⟩))
  | transfers a hcompleting heq hfinish =>
    exact absurd heq (hphase (by rintro ⟨⟩) (by rintro ⟨⟩))
  | reads hcompleting heq hmessages => exact absurd heq (hphase (by rintro ⟨⟩) (by rintro ⟨⟩))
  | releasesLost hcompleting heq => exact absurd heq (hphase (by rintro ⟨⟩) (by rintro ⟨⟩))
  | cleans cleaned hcompleting heq hcleaned =>
    exact absurd heq (hphase (by rintro ⟨⟩) (by rintro ⟨⟩))
  | tearsDown hcompleting heq => exact absurd heq (hphase (by rintro ⟨⟩) (by rintro ⟨⟩))
  | answersOffline hcompleting heq =>
    exact absurd heq (hphase (by rintro ⟨⟩) (by rintro ⟨⟩))
  | ends hcompleting heq => exact absurd heq (hphase (by rintro ⟨⟩) (by rintro ⟨⟩))

/-- No step but `Deinitialize` asks the worker to stop. -/
theorem stops_step (hstops : s.stops = 0) {event : CurlEvent} (hfresh : Fresh s event)
    (hstep : s.step event = some s') : s'.stops = 0 := by
  cases transition_of_step hstep with
  | deinitializes stops => exact absurd hfresh id
  | stops hstops' => exact absurd hstops hstops'
  | _ => exact hstops

theorem cancelInv_step (h : CancelInv s) {event : CurlEvent} (hfresh : Fresh s event)
    (hstep : s.step event = some s') : CancelInv s' := by
  refine ⟨stops_step h.stops hfresh hstep, ?_⟩
  rcases h.clean with hidle | ⟨hwork, hclean⟩
  · exact idle_step hidle h.stops hfresh hstep
  · exact Or.inr ⟨atWork_step hwork h.stops hfresh hstep,
      clean_step hclean hwork h.stops hfresh hstep⟩

end Step

theorem cancelInv_new : CancelInv CurlState.new where
  stops := rfl
  clean := Or.inl ⟨rfl, Or.inl rfl, rfl, rfl, rfl, rfl, fun _ => rfl, fun _ => Or.inr (Or.inl rfl)⟩

/-- What holds of a request that is never cancelled.
* `added_once`: it has been given to curl once for each attempt, but for the attempt whose event
  is still queued, of which there is at most one;
* `own`: curl was given it for events of its own, and what removed and answered it was its own
  transfer, which is what the answer is about;
* `completing_own`: `CompleteMessage` is called for its slot because of its own transfer. -/
structure Undisturbed (s : CurlState) (n : ℕ) : Prop where
  added_once : additions s n + sendEvents s n = attempts s n ∧ sendEvents s n ≤ 1
  own : ∀ effect ∈ s.history, OwnEffect n effect
  completing_own : ∀ slot outcome cause, s.completing = some (.called slot outcome cause) →
    HeldBy s slot n → Own n cause

/-- **Cancelling a request disturbs no other**, in every interleaving in which slots are taken
that nothing queued is still for, and lost handles are those that curl has.
SOURCE: NetworkCurl.cpp:591-683, NetworkCurl.cpp:805-1193, NetworkProtocolCurl.cpp:989-1079 -/
theorem undisturbed_of_fresh {events : List CurlEvent} {s : CurlState}
    (h : CurlState.run events = some s) (hfresh : Along CurlState.step Fresh CurlState.new events)
    {n : ℕ} (hn : NotCancelled s n) : Undisturbed s n := by
  have hinv : CancelInv s :=
    invariant_along CancelInv (fun _ _ _ hs hevent hstep => cancelInv_step hs hevent hstep) h hfresh
      cancelInv_new
  rcases hinv.clean with hidle | ⟨-, hclean⟩
  · refine ⟨?_, ?_, fun slot outcome cause hcase => ?_⟩
    · unfold additions attempts sendEvents
      rw [hidle.history, hidle.events]
      exact ⟨rfl, Nat.zero_le 1⟩
    · rw [hidle.history]
      exact fun _ hmem => absurd hmem List.not_mem_nil
    · rw [hidle.completing] at hcase
      cases hcase
  · refine ⟨⟨hclean.once n hn, ?_⟩, hclean.own n hn, fun slot outcome cause hcase hby => ?_⟩
    · have hle := hclean.open_le n
      unfold attemptsOpen at hle
      omega
    · obtain ⟨-, hknown, -, hrequest⟩ := hclean.completing_called hcase
      have hrequest' := (hrequest hby.1).trans hby.2
      exact own_of_request hrequest' (isCancelEvent_of_notCancelled hknown hrequest' hn)

/-- A request is accepted by a new network. -/
theorem undisturbed_of_fresh_one_request :
    ∃ s, CurlState.run [.initializeWorker, .worker .runStarts,
        .send 0 ⟨1, false, false, none, 3, false, false⟩, .sendImplementation 0, .checkHandle 0,
        .getHandle 0 true, .configureHandle 0, .checkAgain 0, .addSendEvent 0] = some s ∧
      Undisturbed s 0 := by
  refine ⟨_, rfl, @undisturbed_of_fresh [.initializeWorker, .worker .runStarts,
    .send 0 ⟨1, false, false, none, 3, false, false⟩, .sendImplementation 0, .checkHandle 0,
    .getHandle 0 true, .configureHandle 0, .checkAgain 0, .addSendEvent 0] _ rfl ?_ 0 (by decide)⟩
  apply along_cons_of_step trivial rfl
  apply along_cons_of_step trivial rfl
  apply along_cons_of_step trivial rfl
  apply along_cons_of_step trivial rfl
  apply along_cons_of_step trivial rfl
  -- the slot that is taken is not waited for by anything
  refine along_cons_of_step ?_ rfl ?_
  · refine fun slot _ => ⟨fun _ hmem => absurd hmem List.not_mem_nil,
      fun _ hmem => absurd hmem List.not_mem_nil, fun n => ?_, fun _ _ hcase => by cases hcase⟩
    cases n with
    | zero => rintro ⟨⟩
    | succ n => rintro ⟨⟩
  · apply along_cons_of_step trivial rfl
    apply along_cons_of_step trivial rfl
    apply along_cons_of_step trivial rfl
    trivial

/-- The first request is completed, and cancelled just before its slot is released. The event of
its cancellation finds the second request in the slot, which is answered with a timeout. -/
theorem cancel_answers_next_request :
    ∃ s, CurlState.run [.initializeWorker, .worker .runStarts,
        .send 0 ⟨1, false, false, none, 3, false, false⟩, .sendImplementation 0, .checkHandle 0,
        .getHandle 0 true, .configureHandle 0, .checkAgain 0, .addSendEvent 0,
        .worker .iterate, .worker (.handleEvent true), .worker (.handleEvent true),
        .worker .checkAdded, .worker .failNext,
        .worker (.transfer ⟨⟨0, by decide⟩, some 0⟩ ⟨false, none, 200, [], .OK, false⟩),
        .worker .performed, .worker .readMessage, .completeMessage,
        .cancel 1, .markCancelled 1, .completeMessage, .completeMessage, .completeMessage,
        .send 1 ⟨2, false, false, none, 3, false, false⟩, .sendImplementation 1, .checkHandle 1,
        .getHandle 1 true, .configureHandle 1, .checkAgain 1, .addSendEvent 1,
        .completeMessage, .worker .readMessage, .worker (.restart false), .worker .iterate,
        .worker (.handleEvent true), .completeMessage, .completeMessage, .completeMessage,
        .completeMessage] = some s ∧
      NotCancelled s 1 ∧ .answered 1 (.cancelEvent (some 0)) 2 (-7) ∈ s.history :=
  ⟨_, rfl, by decide, by decide⟩

end OlpEdgeSdk.Analysis.CurlCancellation

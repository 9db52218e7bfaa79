import OlpEdgeSdk.Model.NetworkCurl

/-!
# What a step of `NetworkCurl` can do

`Transition` has one constructor for each thing that can happen, with what is known when it does;
`transition_of_step` says that there is nothing else. What holds of whole runs is proved by cases
on it.
-/

set_option autoImplicit false

namespace OlpEdgeSdk.Analysis.CurlTransitions

open OlpEdgeSdk.Base OlpEdgeSdk.Model OlpEdgeSdk.Model.NetworkCurl

/-! ## Calls of `Send` and phases of the worker -/

/-- The slot that a call of `Send` is about to fill. -/
def slotOf : SendState → Option Slot
  | .configuring slot _ => some slot
  | .settingOptions slot => some slot
  | .addingEvent slot => some slot
  | _ => none

/-- The call has taken a slot, and has not failed. -/
def hasTaken : SendState → Bool
  | .configuring _ _ => true
  | .settingOptions _ => true
  | .addingEvent _ => true
  | .accepted => true
  | _ => false

/-- The call has not taken a slot yet. -/
def isBefore : SendState → Bool
  | .notCalled => true
  | .called _ => true
  | .gettingHandle _ => true
  | .locking _ => true
  | _ => false

/-- The steps of a call that concern nothing else. -/
inductive Moves (s : CurlState) : SendState → SendState → Prop where
  | called (r : SendRequest) : Moves s .notCalled (.called r)
  | gettingHandle (r : SendRequest) (hstarted : s.isStarted = true) :
      Moves s (.called r) (.gettingHandle r)
  | notStarted (r : SendRequest) : Moves s (.called r) (.failed .notStarted)
  | locking (r : SendRequest) : Moves s (.gettingHandle r) (.locking r)
  | stoppedBefore (r : SendRequest) : Moves s (.gettingHandle r) (.failed .noHandle)
  | noHandle (r : SendRequest) : Moves s (.locking r) (.failed .noHandle)
  | addingEvent (slot : Slot) : Moves s (.settingOptions slot) (.addingEvent slot)

theorem Moves.hasTaken_eq {s : CurlState} {before after : SendState} (h : Moves s before after) :
    hasTaken after = hasTaken before := by
  cases h <;> rfl

theorem Moves.slotOf_eq {s : CurlState} {before after : SendState} (h : Moves s before after) :
    slotOf after = slotOf before := by
  cases h <;> rfl

theorem Moves.isBefore {s : CurlState} {before after : SendState} (h : Moves s before after)
    (hafter : isBefore after = true) : isBefore before = true := by
  cases h with
  | addingEvent slot => cases hafter
  | _ => rfl

/-- The worker runs, and has not torn down. -/
def Running : Phase → Prop
  | .ended => False
  | .offline _ => False
  | _ => True

/-- The handles that curl has rejected, as far as they are not completed. -/
def rejectedIn : Phase → List Addition
  | .events msgs => msgs
  | .added msgs => msgs
  | .failing msgs => msgs
  | _ => []

/-- The handles that seem lost, as far as they are not completed. -/
def lostHandles : Phase → List Slot
  | .found handles => handles
  | .releasing handles => handles
  | _ => []

/-- The steps of the worker from phase to phase that concern nothing but the state. -/
structure PhaseMoves (s : CurlState) (state : WorkerState) (phase : Phase) : Prop where
  running : Running s.phase
  running' : Running phase
  starts : s.phase = .starting → state = .STARTED ∧ phase = .looping
  state_eq : s.phase ≠ .starting → state = s.state
  notStarting : phase ≠ .starting
  rejected_eq : rejectedIn phase = rejectedIn s.phase ∨ rejectedIn phase = []
  lost_eq : lostHandles phase = lostHandles s.phase ∨ lostHandles phase = []
  leaving : phase = .leaving → s.isStarted = false

/-! ## History -/

def takenOf : Effect → Option ℕ
  | .took request => some request
  | _ => none

/-- The requests that have taken a slot. -/
def taken (s : CurlState) : List ℕ := s.history.filterMap takenOf

/-! ## Transitions -/

inductive Transition (s : CurlState) : CurlEvent → CurlState → Prop where
  | initializes (hended : s.phase = .ended) : Transition s .initializeWorker { s with
      handles := fun slot =>
        { s.handles slot with handle := slot.val < kStaticHandleCount, inUse := false }
      multi := Multi.empty
      phase := .starting }
  | deinitializes (stops : ℕ) : Transition s CurlEvent.deinitialize { s with stops := stops }
  | stops (hstops : s.stops ≠ 0) :
      Transition s .stop { s with state := .STOPPING, stops := s.stops - 1 }
  | cancels {event : CurlEvent} (cancels : List ℕ) :
      Transition s event { s with cancels := cancels }
  | sendMoves {event : CurlEvent} {n : ℕ} {after : SendState} (hmoves : Moves s (s.sends n) after) :
      Transition s event (s.setSend n after)
  | sendFails {event : CurlEvent} {n : ℕ} {slot : Slot} (error : SendError)
      (hsend : s.sends n = .settingOptions slot)
      (hevent : event = .optionFails n ∨ event = .checkAgain n ∧ s.isStarted = false) :
      Transition s event (s.setSend n (.failed error))
  | takes {n : ℕ} {r : SendRequest} {slot : Slot} (created : Bool) (hsend : s.sends n = .locking r)
      (hfree : s.freeSlot = some slot) : Transition s (.getHandle n created)
        (((s.setHandle slot (take (s.handles slot) r.id (some n) r.headerCallback r.dataCallback
          r.payload)).setSend n (.configuring slot r)).record (.took n))
  | configures {n : ℕ} {r : SendRequest} {slot : Slot} (hsend : s.sends n = .configuring slot r) :
      Transition s (.configureHandle n)
        ((s.setHandle slot (configure (s.handles slot) r.maxRetries r.ignoreOffset
          r.skipContent)).setSend n (.settingOptions slot))
  | queues {n : ℕ} {slot : Slot} (hsend : s.sends n = .addingEvent slot) :
      Transition s (.addSendEvent n)
        (((s.addEvent .SEND_EVENT slot (some n)).setSend n .accepted).record (.queued (some n)))
  | marks {slot : Slot} (id : ℕ) (cancels : List ℕ) (huse : (s.handles slot).inUse = true) :
      Transition s (.markCancelled id)
        ((({ s with cancels := cancels }.setHandle slot
          { s.handles slot with cancelled := true }).addEvent .CANCEL_EVENT slot
          (s.handles slot).callback).record (.cancelled (s.handles slot).callback))
  -- inside `CompleteMessage`
  | unknown {slot : Slot} {outcome : Outcome} {cause : Cause}
      (hcompleting : s.completing = some (.called slot outcome cause))
      (hunknown : ¬ ((s.handles slot).inUse = true ∧ (s.handles slot).handle = true)) :
      Transition s .completeMessage { s with completing := some .returned }
  | drops {slot : Slot} {outcome : Outcome} {cause : Cause}
      (hcompleting : s.completing = some (.called slot outcome cause))
      (huse : (s.handles slot).inUse = true) (hcallback : (s.handles slot).callback = none) :
      Transition s .completeMessage
        { s.setHandle slot (releaseHandleUnlocked (s.handles slot)) with
          completing := some .returned }
  | answersCancelled {slot : Slot} {outcome : Outcome} {cause : Cause} {callback : ℕ}
      (hcompleting : s.completing = some (.called slot outcome cause))
      (huse : (s.handles slot).inUse = true) (hhandle : (s.handles slot).handle = true)
      (hcallback : (s.handles slot).callback = some callback)
      (hcancelled : (s.handles slot).cancelled = true) : Transition s .completeMessage
        { s.setHandle slot (releaseHandleUnlocked (s.handles slot)) with
          completing := some (.answering callback (s.handles slot).id
            ErrorCode.CANCELLED_ERROR.value cause) }
  | finds {slot : Slot} {outcome : Outcome} {cause : Cause} {callback : ℕ}
      (hcompleting : s.completing = some (.called slot outcome cause))
      (huse : (s.handles slot).inUse = true) (hhandle : (s.handles slot).handle = true)
      (hcallback : (s.handles slot).callback = some callback) :
      Transition s .completeMessage
        { s with completing := some (.found slot callback outcome cause) }
  | decides {slot : Slot} {outcome : Outcome} {cause : Cause} {callback : ℕ} {status : ℤ}
      (completing : Completing)
      (hcompleting : s.completing = some (.found slot callback outcome cause))
      (hstatus : status = attemptStatus (s.handles slot) outcome.result outcome.httpStatus
        outcome.tookLong)
      (hdecision : completing = .retrying slot ∧ isRetryStatus status = true ∨
        ∃ id, completing = .releasing slot callback id status cause) :
      Transition s .completeMessage
        { s.setHandle slot (retry (s.handles slot) status).1 with completing := some completing }
  | retries {slot : Slot} (hcompleting : s.completing = some (.retrying slot)) :
      Transition s .completeMessage
        { (s.addEvent .SEND_EVENT slot (s.handles slot).callback).record
            (.queued (s.handles slot).callback) with
          completing := some .returned }
  | releases {slot : Slot} {callback id : ℕ} {status : ℤ} {cause : Cause}
      (hcompleting : s.completing = some (.releasing slot callback id status cause)) :
      Transition s .completeMessage
        { s.setHandle slot (releaseHandleUnlocked (s.handles slot)) with
          completing := some (.answering callback id status cause) }
  | answers {callback id : ℕ} {status : ℤ} {cause : Cause}
      (hcompleting : s.completing = some (.answering callback id status cause)) :
      Transition s .completeMessage
        { s.record (.answered callback cause id status) with completing := some .returned }
  | returns (hcompleting : s.completing = some .returned) :
      Transition s .completeMessage { s with completing := none }
  -- the loop
  | moves {step : WorkerStep} (state : WorkerState) (phase : Phase)
      (hcompleting : s.completing = none) (hmoves : PhaseMoves s state phase) :
      Transition s (.worker step) { s with state := state, phase := phase }
  | findsLost (lost : Slot → Bool) (hcompleting : s.completing = none)
      (hphase : s.phase = .selecting false) : Transition s (.worker (.findLost lost))
        { s with phase := .found ((List.finRange kTotalHandleCount).filter fun slot =>
            (s.handles slot).inUse && lost slot) }
  | skips {success : Bool} {event : EventInfo} {events : List EventInfo} {msgs : List Addition}
      (hcompleting : s.completing = none) (hphase : s.phase = .events msgs)
      (hevents : s.events = event :: events) (huse : (s.handles event.handle).inUse = false) :
      Transition s (.worker (.handleEvent success)) { s with events := events }
  | adds {event : EventInfo} {events : List EventInfo} {msgs : List Addition}
      (hcompleting : s.completing = none) (hphase : s.phase = .events msgs)
      (hevents : s.events = event :: events) (huse : (s.handles event.handle).inUse = true)
      (htype : event.type = .SEND_EVENT) (hnone : s.multi.find event.handle = none) :
      Transition s (.worker (.handleEvent true))
        { { s with events := events }.record
            (.added (s.handles event.handle).callback event.request true) with
          multi := s.multi.add ⟨event.handle, (s.handles event.handle).callback⟩ }
  | rejects {success : Bool} {event : EventInfo} {events : List EventInfo} {msgs : List Addition}
      (hcompleting : s.completing = none) (hphase : s.phase = .events msgs)
      (hevents : s.events = event :: events) (huse : (s.handles event.handle).inUse = true)
      (htype : event.type = .SEND_EVENT) : Transition s (.worker (.handleEvent success))
        { { s with events := events }.record
            (.added (s.handles event.handle).callback event.request false) with
          phase := .events (msgs ++ [⟨event.handle, (s.handles event.handle).callback⟩]) }
  | cancelsHandle {success : Bool} {event : EventInfo} {events : List EventInfo}
      {msgs : List Addition} (hcompleting : s.completing = none) (hphase : s.phase = .events msgs)
      (hevents : s.events = event :: events) (huse : (s.handles event.handle).inUse = true)
      (htype : event.type = .CANCEL_EVENT) : Transition s (.worker (.handleEvent success))
        { { s with events := events }.record (.removed (s.handles event.handle).callback
            (.cancelEvent event.request)) with
          multi := s.multi.remove event.handle
          completing := some (.called event.handle ⟨.OPERATION_TIMEDOUT, 0, false⟩
            (.cancelEvent event.request)) }
  | failsNext {msg : Addition} {msgs : List Addition} (hcompleting : s.completing = none)
      (hphase : s.phase = .failing (msg :: msgs)) : Transition s (.worker .failNext) { s with
        phase := .failing msgs
        completing := some (.called msg.slot ⟨.COULDNT_CONNECT, 0, false⟩
          (.addition msg.request)) }
  | transfers {addition : Addition} (a : Attempt) (hcompleting : s.completing = none)
      (hphase : s.phase = .performing) (hfinish : s.multi.canFinish addition = true) :
      Transition s (.worker (.transfer addition a))
        { s.setHandle addition.slot (a.chunks.foldl (rxFunction s.isStarted a.status)
            (if s.isStarted && !(s.handles addition.slot).cancelled then
              receiveHeader a (s.handles addition.slot) else s.handles addition.slot)) with
          multi := s.multi.finish ⟨addition, a.result, a.status, a.tookLong⟩ }
  | reads {message : Message} {messages : List Message} {completed : Bool}
      (hcompleting : s.completing = none) (hphase : s.phase = .messages completed)
      (hmessages : s.multi.messages = message :: messages) : Transition s (.worker .readMessage)
        { s.record (.removed (s.handles message.addition.slot).callback (.transfer message)) with
          multi := s.multi.remove message.addition.slot
          phase := .messages true
          completing := some (.called message.addition.slot message.outcome (.transfer message)) }
  | releasesLost {slot : Slot} {lost : List Slot} (hcompleting : s.completing = none)
      (hphase : s.phase = .releasing (slot :: lost)) : Transition s (.worker .releaseLost)
        { s.record (.removed (s.handles slot).callback
            (.lost ((s.multi.find slot).bind Addition.request))) with
          multi := s.multi.remove slot
          phase := .releasing lost
          completing := some (.called slot ⟨.OPERATION_TIMEDOUT, 0, false⟩
            (.lost ((s.multi.find slot).bind Addition.request))) }
  | cleans {old : Slot → Bool} (cleaned : Slot → Bool) (hcompleting : s.completing = none)
      (hphase : s.phase = .cleaning)
      (hcleaned : ∀ slot, cleaned slot = true → (s.handles slot).inUse = false) :
      Transition s (.worker (.clean old)) { s with
        handles := fun slot => { s.handles slot with
          handle := (s.handles slot).handle && !cleaned slot }
        multi := s.multi.removeAll cleaned
        phase := .looping }
  | tearsDown (hcompleting : s.completing = none) (hphase : s.phase = .leaving) :
      Transition s (.worker .teardown) { s with
        events := []
        handles := fun slot => { s.handles slot with handle := false }
        multi := Multi.empty
        phase := .offline s.pending }
  | answersOffline {callback id : ℕ} {completedMessages : List (ℕ × ℕ)}
      (hcompleting : s.completing = none)
      (hphase : s.phase = .offline ((callback, id) :: completedMessages)) :
      Transition s (.worker .answerOffline)
        { s.record (.answered callback .offline id ErrorCode.OFFLINE_ERROR.value) with
          phase := .offline completedMessages }
  | ends (hcompleting : s.completing = none) (hphase : s.phase = .offline []) :
      Transition s (.worker .answerOffline) { s with state := .STOPPED, phase := .ended }

/-! ## There is nothing else -/

/-- The slot that `GetHandle` takes is not in use. -/
theorem inUse_of_freeSlot {s : CurlState} {slot : Slot} (h : s.freeSlot = some slot) :
    (s.handles slot).inUse = false := by
  have hfound := List.find?_some h
  simpa using hfound

section Inversion

variable {s s' : CurlState}

theorem transition_send {n : ℕ} {r : SendRequest} (h : s.send n r = some s') :
    Transition s (.send n r) s' := by
  unfold CurlState.send at h
  split at h
  · rename_i hsend
    cases h
    apply Transition.sendMoves
    rw [hsend]
    exact .called r
  · cases h

theorem transition_sendImplementation {n : ℕ} (h : s.sendImplementation n = some s') :
    Transition s (.sendImplementation n) s' := by
  unfold CurlState.sendImplementation at h
  split at h
  · rename_i r hsend
    cases h
    apply Transition.sendMoves
    rw [hsend]
    split
    · rename_i hstarted
      exact .gettingHandle r hstarted
    · exact .notStarted r
  · cases h

theorem transition_checkHandle {n : ℕ} (h : s.checkHandle n = some s') :
    Transition s (.checkHandle n) s' := by
  unfold CurlState.checkHandle at h
  split at h
  · rename_i r hsend
    cases h
    apply Transition.sendMoves
    rw [hsend]
    split
    · exact .locking r
    · exact .stoppedBefore r
  · cases h

theorem transition_getHandle {n : ℕ} {created : Bool} (h : s.getHandle n created = some s') :
    Transition s (.getHandle n created) s' := by
  unfold CurlState.getHandle at h
  split at h
  · cases h
  · split at h
    · rename_i r hsend
      have hfails : Transition s (.getHandle n created) (s.setSend n (.failed .noHandle)) := by
        apply Transition.sendMoves
        rw [hsend]
        exact .noHandle r
      split at h
      · cases h
        exact hfails
      · rename_i slot hfree
        split at h
        · cases h
          exact .takes created hsend hfree
        · cases h
          exact hfails
    · cases h

theorem transition_configureHandle {n : ℕ} (h : s.configureHandle n = some s') :
    Transition s (.configureHandle n) s' := by
  unfold CurlState.configureHandle at h
  split at h
  · rename_i slot r hsend
    cases h
    exact .configures hsend
  · cases h

theorem transition_optionFails {n : ℕ} (h : s.optionFails n = some s') :
    Transition s (.optionFails n) s' := by
  unfold CurlState.optionFails at h
  split at h
  · rename_i slot hsend
    cases h
    exact .sendFails .optionFailed hsend (Or.inl rfl)
  · cases h

theorem transition_checkAgain {n : ℕ} (h : s.checkAgain n = some s') :
    Transition s (.checkAgain n) s' := by
  unfold CurlState.checkAgain at h
  split at h
  · rename_i slot hsend
    cases h
    split
    · apply Transition.sendMoves
      rw [hsend]
      exact .addingEvent slot
    · rename_i hstarted
      exact .sendFails .stopped hsend (Or.inr ⟨rfl, Bool.eq_false_iff.mpr hstarted⟩)
  · cases h

theorem transition_addSendEvent {n : ℕ} (h : s.addSendEvent n = some s') :
    Transition s (.addSendEvent n) s' := by
  unfold CurlState.addSendEvent at h
  split at h
  · cases h
  · split at h
    · rename_i slot hsend
      cases h
      exact .queues hsend
    · cases h

theorem transition_markCancelled {id : ℕ} (h : s.markCancelled id = some s') :
    Transition s (.markCancelled id) s' := by
  unfold CurlState.markCancelled at h
  split at h
  · cases h
  · dsimp only at h
    split at h
    · rename_i slot hslot
      cases h
      have hfound := List.find?_some hslot
      simp only [Bool.and_eq_true] at hfound
      exact .marks id (s.cancels.erase id) hfound.1
    · cases h
      exact .cancels _

theorem transition_completeMessage (h : s.completeMessage = some s') :
    Transition s .completeMessage s' := by
  unfold CurlState.completeMessage at h
  split at h
  · cases h
  · rename_i slot outcome cause hcompleting
    dsimp only at h
    split at h
    · rename_i huse
      rw [Bool.and_eq_true] at huse
      split at h
      · rename_i hcallback
        cases h
        exact .drops hcompleting huse.1 hcallback
      · rename_i callback hcallback
        split at h
        · rename_i hcancelled
          cases h
          exact .answersCancelled hcompleting huse.1 huse.2 hcallback hcancelled
        · cases h
          exact .finds hcompleting huse.1 huse.2 hcallback
    · rename_i huse
      rw [Bool.and_eq_true] at huse
      cases h
      exact .unknown hcompleting huse
  · rename_i slot callback outcome cause hcompleting
    dsimp only at h
    split at h
    · rename_i hagain
      cases h
      refine .decides _ hcompleting rfl (Or.inl ⟨rfl, ?_⟩)
      unfold retry at hagain
      split at hagain
      · rename_i hstatus
        rw [Bool.and_eq_true] at hstatus
        exact hstatus.1
      · cases hagain
    · cases h
      exact .decides _ hcompleting rfl (Or.inr ⟨_, rfl⟩)
  · rename_i slot hcompleting
    cases h
    exact .retries hcompleting
  · rename_i slot callback id status cause hcompleting
    cases h
    exact .releases hcompleting
  · rename_i callback id status cause hcompleting
    cases h
    exact .answers hcompleting
  · rename_i hcompleting
    cases h
    exact .returns hcompleting

theorem transition_handleEvent {success : Bool} (hcompleting : s.completing = none)
    (h : s.handleEvent success = some s') :
    Transition s (.worker (.handleEvent success)) s' := by
  unfold CurlState.handleEvent at h
  split at h
  · rename_i msgs hphase
    have hmoves : PhaseMoves s s.state (.added msgs) := by
      constructor <;> simp [hphase, Running, rejectedIn, lostHandles]
    split at h
    · rename_i event events hevents
      split at h
      · dsimp only at h
        split at h
        · rename_i huse
          split at h
          · rename_i htype
            cases h
            unfold CurlState.addHandle
            dsimp only
            split
            · rename_i hadd
              rw [Bool.and_eq_true, Option.isNone_iff_eq_none] at hadd
              obtain ⟨rfl, hnone⟩ := hadd
              exact .adds hcompleting hphase hevents huse htype hnone
            · exact .rejects hcompleting hphase hevents huse htype
          · rename_i htype
            cases h
            exact .cancelsHandle hcompleting hphase hevents huse htype
        · rename_i huse
          cases h
          exact .skips hcompleting hphase hevents (Bool.eq_false_iff.mpr huse)
      · cases h
        exact .moves _ _ hcompleting hmoves
    · cases h
      exact .moves _ _ hcompleting hmoves
  · cases h

/-- A step from phase to phase. -/
theorem transition_moves {step : WorkerStep} {state : WorkerState} {phase : Phase}
    (hcompleting : s.completing = none) (hmoves : PhaseMoves s state phase)
    (h : some { s with state := state, phase := phase } = some s') :
    Transition s (.worker step) s' := by
  cases h
  exact .moves state phase hcompleting hmoves

theorem transition_stepWorker {step : WorkerStep} (hcompleting : s.completing = none)
    (h : s.stepWorker step = some s') : Transition s (.worker step) s' := by
  cases step with
  | handleEvent success => exact transition_handleEvent hcompleting h
  | runStarts =>
    simp only [CurlState.stepWorker, CurlState.runStarts] at h
    split at h
    · rename_i hphase
      refine transition_moves hcompleting ?_ h
      constructor <;> simp [hphase, Running, rejectedIn, lostHandles]
    · cases h
  | iterate =>
    simp only [CurlState.stepWorker, CurlState.iterate] at h
    split at h
    · rename_i hphase
      refine transition_moves hcompleting ?_ h
      cases hstarted : s.isStarted <;> constructor <;>
        simp [hphase, hstarted, Running, rejectedIn, lostHandles]
    · cases h
  | checkAdded =>
    simp only [CurlState.stepWorker, CurlState.checkAdded] at h
    split at h
    · rename_i msgs hphase
      refine transition_moves hcompleting ?_ h
      cases hstarted : s.isStarted <;> constructor <;>
        simp [hphase, Running, rejectedIn, lostHandles]
    · cases h
  | failNext =>
    simp only [CurlState.stepWorker, CurlState.failNext] at h
    split at h
    · rename_i msg msgs hphase
      cases h
      exact .failsNext hcompleting hphase
    · rename_i hphase
      refine transition_moves hcompleting ?_ h
      constructor <;> simp [hphase, Running, rejectedIn, lostHandles]
    · cases h
  | transfer addition a =>
    simp only [CurlState.stepWorker, CurlState.transfer] at h
    split at h
    · rename_i hphase
      split at h
      · rename_i hfinish
        cases h
        exact .transfers a hcompleting hphase hfinish
      · cases h
    · cases h
  | performed =>
    simp only [CurlState.stepWorker, CurlState.performed] at h
    split at h
    · rename_i hphase
      refine transition_moves hcompleting ?_ h
      constructor <;> simp [hphase, Running, rejectedIn, lostHandles]
    · cases h
  | readMessage =>
    simp only [CurlState.stepWorker, CurlState.readMessage] at h
    split at h
    · rename_i completed hphase
      have hmoves : PhaseMoves s s.state (.selecting completed) := by
        constructor <;> simp [hphase, Running, rejectedIn, lostHandles]
      split at h
      · split at h
        · rename_i message messages hmessages
          cases h
          exact .reads hcompleting hphase hmessages
        · exact transition_moves hcompleting hmoves h
      · exact transition_moves hcompleting hmoves h
    · cases h
  | restart again =>
    simp only [CurlState.stepWorker, CurlState.restart] at h
    split at h
    · rename_i completed hphase
      split at h
      · refine transition_moves hcompleting ?_ h
        constructor <;> simp [hphase, Running, rejectedIn, lostHandles]
      · cases h
    · cases h
  | findLost lost =>
    simp only [CurlState.stepWorker, CurlState.findLost] at h
    split at h
    · rename_i hphase
      split at h
      · cases h
        exact .findsLost lost hcompleting hphase
      · cases h
    · cases h
  | skipLost =>
    simp only [CurlState.stepWorker, CurlState.skipLost] at h
    split at h
    · rename_i hphase
      split at h
      · refine transition_moves hcompleting ?_ h
        constructor <;> simp [hphase, Running, rejectedIn, lostHandles]
      · cases h
    · cases h
  | checkLost =>
    simp only [CurlState.stepWorker, CurlState.checkLost] at h
    split at h
    · rename_i handles hphase
      refine transition_moves hcompleting ?_ h
      cases hstarted : s.isStarted <;> constructor <;>
        simp [hphase, Running, rejectedIn, lostHandles]
    · cases h
  | releaseLost =>
    simp only [CurlState.stepWorker, CurlState.releaseLost] at h
    split at h
    · rename_i slot handles hphase
      cases h
      exact .releasesLost hcompleting hphase
    · rename_i hphase
      refine transition_moves hcompleting ?_ h
      cases hstarted : s.isStarted <;> constructor <;>
        simp [hphase, Running, rejectedIn, lostHandles]
    · cases h
  | clean old =>
    simp only [CurlState.stepWorker, CurlState.clean] at h
    split at h
    · rename_i hphase
      cases h
      refine .cleans _ hcompleting hphase fun slot hslot => ?_
      simp only [Bool.and_eq_true, Bool.not_eq_true'] at hslot
      exact hslot.1.2
    · cases h
  | teardown =>
    simp only [CurlState.stepWorker, CurlState.teardown] at h
    split at h
    · rename_i hphase
      cases h
      exact .tearsDown hcompleting hphase
    · cases h
  | answerOffline =>
    simp only [CurlState.stepWorker, CurlState.answerOffline] at h
    split at h
    · rename_i callback id completedMessages hphase
      cases h
      exact .answersOffline hcompleting hphase
    · rename_i hphase
      cases h
      exact .ends hcompleting hphase
    · cases h

theorem transition_of_step {event : CurlEvent} (h : s.step event = some s') :
    Transition s event s' := by
  cases event with
  | initializeWorker =>
    simp only [CurlState.step, CurlState.initializeWorker] at h
    split at h
    · rename_i hstopped
      cases h
      exact .initializes hstopped.2
    · cases h
  | deinitialize =>
    simp only [CurlState.step, CurlState.deinitialize] at h
    split at h
    · cases h
      exact .deinitializes _
    · cases h
      exact .deinitializes s.stops
  | stop =>
    simp only [CurlState.step, CurlState.stop] at h
    split at h
    · cases h
    · rename_i hstops
      cases h
      exact .stops fun hzero => hstops (Or.inl hzero)
  | send n r => exact transition_send h
  | sendImplementation n => exact transition_sendImplementation h
  | checkHandle n => exact transition_checkHandle h
  | getHandle n created => exact transition_getHandle h
  | configureHandle n => exact transition_configureHandle h
  | optionFails n => exact transition_optionFails h
  | checkAgain n => exact transition_checkAgain h
  | addSendEvent n => exact transition_addSendEvent h
  | cancel id =>
    simp only [CurlState.step, CurlState.cancel] at h
    split at h
    · cases h
      exact .cancels _
    · cases h
      exact .cancels s.cancels
  | markCancelled id => exact transition_markCancelled h
  | completeMessage => exact transition_completeMessage h
  | worker step =>
    simp only [CurlState.step] at h
    split at h
    · cases h
    · rename_i hcompleting
      rw [Bool.not_eq_true, Option.isSome_eq_false_iff, Option.isNone_iff_eq_none] at hcompleting
      exact transition_stepWorker hcompleting h

end Inversion

/-! ## What leaves a slot to its request -/

/-- Two states of a slot with the same request. -/
structure SameRequest (handle handle' : RequestHandle) : Prop where
  inUse : handle'.inUse = handle.inUse
  hasEasy : handle'.handle = handle.handle
  callback : handle'.callback = handle.callback
  cancelled : handle'.cancelled = handle.cancelled

namespace SameRequest

theorem refl (handle : RequestHandle) : SameRequest handle handle := ⟨rfl, rfl, rfl, rfl⟩

theorem trans {a b c : RequestHandle} (h : SameRequest a b) (h' : SameRequest b c) :
    SameRequest a c :=
  ⟨h'.inUse.trans h.inUse, h'.hasEasy.trans h.hasEasy, h'.callback.trans h.callback,
    h'.cancelled.trans h.cancelled⟩

end SameRequest

theorem sameRequest_retry (handle : RequestHandle) (status : ℤ) :
    SameRequest handle (retry handle status).1 := by
  unfold retry
  split
  · split
    · exact ⟨rfl, rfl, rfl, rfl⟩
    · exact ⟨rfl, rfl, rfl, rfl⟩
  · exact SameRequest.refl handle

theorem sameRequest_rxFunction (isStarted : Bool) (status : ℕ) (handle : RequestHandle)
    (data : List UInt8) : SameRequest handle (rxFunction isStarted status handle data) := by
  unfold rxFunction
  split
  · exact SameRequest.refl handle
  · split
    · exact ⟨rfl, rfl, rfl, rfl⟩
    · exact SameRequest.refl handle

theorem sameRequest_chunks (isStarted : Bool) (status : ℕ) (chunks : List (List UInt8))
    (handle : RequestHandle) :
    SameRequest handle (chunks.foldl (rxFunction isStarted status) handle) := by
  induction chunks generalizing handle with
  | nil => exact SameRequest.refl handle
  | cons data chunks ih =>
    exact (sameRequest_rxFunction isStarted status handle data).trans (ih _)

/-- A transfer: the headers, and then the chunks of the body. -/
theorem sameRequest_transfer (isStarted : Bool) (a : Attempt) (handle : RequestHandle) :
    SameRequest handle (a.chunks.foldl (rxFunction isStarted a.status)
      (if isStarted && !handle.cancelled then receiveHeader a handle else handle)) := by
  have hheader : SameRequest handle
      (if isStarted && !handle.cancelled then receiveHeader a handle else handle) := by
    split
    · exact ⟨rfl, rfl, rfl, rfl⟩
    · exact SameRequest.refl handle
  exact hheader.trans (sameRequest_chunks isStarted a.status a.chunks _)

/-- A slot of a pool is replaced by one that is related to it. -/
theorem setHandle_related {Related : RequestHandle → RequestHandle → Prop}
    (hrefl : ∀ handle, Related handle handle) (s : CurlState) {slot : Slot}
    {handle : RequestHandle} (h : Related (s.handles slot) handle) (other : Slot) :
    Related (s.handles other) ((s.setHandle slot handle).handles other) := by
  show Related _ (Function.update s.handles slot handle other)
  by_cases heq : other = slot
  · subst heq
    rwa [Function.update_self]
  · rw [Function.update_of_ne heq]
    exact hrefl _

end OlpEdgeSdk.Analysis.CurlTransitions

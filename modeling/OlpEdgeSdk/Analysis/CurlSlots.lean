import Mathlib.Algebra.BigOperators.Fin
import OlpEdgeSdk.Analysis.CurlTransitions
import OlpEdgeSdk.Base.Obligations

/-!
# The slots of `NetworkCurl`, and the callbacks they owe

A slot that is in use and has an easy handle owes the callback it holds; the worker owes the
callbacks that it is about to call. What `GetHandle` has taken is owed or answered, once each
(`SlotInv`). This is kept by every step but two: a `Send` that returns an error behind
`GetHandle` leaves its slot, and a slot that is taken between `Teardown` and the next
`Initialize` is forgotten (`Kept`). `Teardown` leaves the slots that it answers in use, until
the next `Initialize` (`Drained`).

SOURCE: NetworkCurl.cpp:280-358, NetworkCurl.cpp:381-683, NetworkCurl.cpp:805-1199
-/

set_option autoImplicit false

namespace OlpEdgeSdk.Analysis.CurlSlots

open OlpEdgeSdk.Base OlpEdgeSdk.Model OlpEdgeSdk.Model.NetworkCurl
open OlpEdgeSdk.Analysis.CurlTransitions

/-! ## What is owed -/

/-- The callback that a slot owes. -/
def owedBySlot (handle : RequestHandle) : Multiset ℕ :=
  if handle.inUse && handle.handle then (handle.callback.toList : Multiset ℕ) else 0

/-- The callback that `CompleteMessage` is about to call. -/
def dueNow : Option Completing → Multiset ℕ
  | some (.answering callback _ _ _) => {callback}
  | _ => 0

/-- The callbacks that the worker calls at its end. -/
def dueAtEnd : Phase → Multiset ℕ
  | .offline completedMessages => (completedMessages.map Prod.fst : List ℕ)
  | _ => 0

/-- The callbacks that the worker is about to call. -/
def due (s : CurlState) : Multiset ℕ := dueNow s.completing + dueAtEnd s.phase

def owed (s : CurlState) : Multiset ℕ := owedBy owedBySlot s.handles + due s

def answeredOf : Effect → Option ℕ
  | .answered request _ _ _ => some request
  | _ => none

/-- The requests whose callbacks have been called. -/
def answered (s : CurlState) : List ℕ := s.history.filterMap answeredOf

/-- A slot holds a request, and has an easy handle. -/
structure Holds (handle : RequestHandle) (request : ℕ) : Prop where
  inUse : handle.inUse = true
  hasEasy : handle.handle = true
  callback : handle.callback = some request

theorem owedBySlot_of_holds {handle : RequestHandle} {request : ℕ} (h : Holds handle request) :
    owedBySlot handle = {request} := by
  unfold owedBySlot
  rw [h.inUse, h.hasEasy, h.callback]
  rfl

theorem mem_owedBySlot {handle : RequestHandle} {request : ℕ} :
    request ∈ owedBySlot handle ↔ Holds handle request := by
  constructor
  · intro h
    unfold owedBySlot at h
    split at h
    · rename_i huse
      rw [Bool.and_eq_true] at huse
      rw [Multiset.mem_coe, Option.mem_toList] at h
      exact ⟨huse.1, huse.2, h⟩
    · cases h
  · intro h
    rw [owedBySlot_of_holds h]
    exact Multiset.mem_singleton_self request

theorem owedBySlot_of_free {handle : RequestHandle}
    (h : ¬ (handle.inUse = true ∧ handle.handle = true)) : owedBySlot handle = 0 := by
  unfold owedBySlot
  rw [if_neg]
  rwa [Bool.and_eq_true]

/-! ## What leaves a slot to its request -/

/-- Two states of a slot with the same holder. -/
structure SameHolder (handle handle' : RequestHandle) : Prop where
  inUse : handle'.inUse = handle.inUse
  hasEasy : handle.inUse = true → handle'.handle = handle.handle
  callback : handle'.callback = handle.callback

namespace SameHolder

theorem refl (handle : RequestHandle) : SameHolder handle handle := ⟨rfl, fun _ => rfl, rfl⟩

variable {handle handle' : RequestHandle}

theorem owedBySlot_eq (h : SameHolder handle handle') :
    owedBySlot handle' = owedBySlot handle := by
  unfold owedBySlot
  rw [h.inUse, h.callback]
  cases huse : handle.inUse with
  | false => rfl
  | true => rw [h.hasEasy huse]

theorem holds (h : SameHolder handle handle') {request : ℕ} (hholds : Holds handle request) :
    Holds handle' request :=
  ⟨h.inUse.trans hholds.inUse, (h.hasEasy hholds.inUse).trans hholds.hasEasy,
    h.callback.trans hholds.callback⟩

end SameHolder

theorem sameHolder_configure (handle : RequestHandle) (maxRetries : ℕ)
    (ignoreOffset skipContent : Bool) :
    SameHolder handle (configure handle maxRetries ignoreOffset skipContent) :=
  ⟨rfl, fun _ => rfl, rfl⟩

theorem sameHolder_of_sameRequest {handle handle' : RequestHandle}
    (h : SameRequest handle handle') : SameHolder handle handle' :=
  ⟨h.inUse, fun _ => h.hasEasy, h.callback⟩

/-- A slot of a pool is replaced by one with the same holder. -/
theorem sameHolder_setHandle (s : CurlState) {slot : Slot} {handle : RequestHandle}
    (h : SameHolder (s.handles slot) handle) (other : Slot) :
    SameHolder (s.handles other) ((s.setHandle slot handle).handles other) :=
  setHandle_related SameHolder.refl s h other

/-! ## The invariant -/

/-- `CompleteMessage` is about a slot that holds the callback it has found. -/
def CompletingHolds (s : CurlState) : Prop :=
  match s.completing with
  | some (.found slot callback _ _) => Holds (s.handles slot) callback
  | some (.releasing slot callback _ _ _) => Holds (s.handles slot) callback
  | _ => True

/-- What holds in every state. -/
structure SlotInv (s : CurlState) : Prop where
  balanced : Balanced (taken s : Multiset ℕ) (owed s) (answered s : Multiset ℕ)
  taken_iff : ∀ n, n ∈ taken s ↔ hasTaken (s.sends n) = true
  held : ∀ slot, (s.handles slot).inUse = true →
    ∃ n, (s.handles slot).callback = some n ∧ n ∈ taken s
  free : ∀ slot, (s.handles slot).inUse = false →
    ∀ n, (s.handles slot).callback = some n → n ∈ answered s
  completing : CompletingHolds s
  running : Running s.phase → ∀ slot, (s.handles slot).inUse = true →
    (s.handles slot).handle = true
  ended : ¬ Running s.phase → s.completing = none ∧
    ∀ slot, (s.handles slot).inUse = true → (s.handles slot).handle = false

/-- A `Send` with a slot does not fail, and no slot is taken after `Teardown`. -/
def Kept (s : CurlState) : CurlEvent → Prop
  | .optionFails _ => False
  | .checkAgain _ => s.isStarted = true
  | .getHandle _ _ => s.freeSlot.isSome = true → Running s.phase
  | _ => True

/-- `Teardown` finds no slot in use. -/
def Drained (s : CurlState) : CurlEvent → Prop
  | .worker .teardown => ∀ slot, (s.handles slot).inUse = false
  | _ => True

section Step

variable {s s' : CurlState}

/-- A step that leaves the holders, the debts of the worker, and what is taken and answered. -/
theorem SlotInv.of_same (h : SlotInv s)
    (hhandles : ∀ slot, SameHolder (s.handles slot) (s'.handles slot)) (hdue : due s' = due s)
    (htaken : taken s' = taken s) (hanswered : answered s' = answered s)
    (hsends : ∀ n, hasTaken (s'.sends n) = hasTaken (s.sends n)) (hcompleting : CompletingHolds s')
    (hrunning : Running s'.phase ↔ Running s.phase)
    (hended : ¬ Running s.phase → s'.completing = none) : SlotInv s' where
  balanced := by
    have howed : owed s' = owed s := by
      unfold owed
      rw [owedBy_congr fun slot => (hhandles slot).owedBySlot_eq, hdue]
    rw [htaken, hanswered, howed]
    exact h.balanced
  taken_iff n := by rw [htaken, hsends, h.taken_iff]
  held slot huse := by
    rw [(hhandles slot).inUse] at huse
    rw [(hhandles slot).callback, htaken]
    exact h.held slot huse
  free slot hfree n hn := by
    rw [(hhandles slot).inUse] at hfree
    rw [(hhandles slot).callback] at hn
    rw [hanswered]
    exact h.free slot hfree n hn
  completing := hcompleting
  running hphase slot huse := by
    rw [(hhandles slot).inUse] at huse
    rw [(hhandles slot).hasEasy huse]
    exact h.running (hrunning.mp hphase) slot huse
  ended hphase := by
    rw [hrunning] at hphase
    refine ⟨hended hphase, fun slot huse => ?_⟩
    rw [(hhandles slot).inUse] at huse
    rw [(hhandles slot).hasEasy huse]
    exact (h.ended hphase).2 slot huse

theorem CompletingHolds.of_holds (h : CompletingHolds s)
    (hholds : ∀ slot request, Holds (s.handles slot) request → Holds (s'.handles slot) request)
    (hcompleting : s'.completing = s.completing) : CompletingHolds s' := by
  unfold CompletingHolds at h ⊢
  rw [hcompleting]
  split
  · rename_i slot callback outcome cause hcase
    rw [hcase] at h
    exact hholds slot callback h
  · rename_i slot callback id status cause hcase
    rw [hcase] at h
    exact hholds slot callback h
  · trivial

/-- A step of the callers: the worker, its slots and what it owes stay. -/
theorem SlotInv.of_callers (h : SlotInv s)
    (hhandles : ∀ slot, SameHolder (s.handles slot) (s'.handles slot))
    (hcompleting : s'.completing = s.completing) (hphase : s'.phase = s.phase)
    (htaken : taken s' = taken s) (hanswered : answered s' = answered s)
    (hsends : ∀ n, hasTaken (s'.sends n) = hasTaken (s.sends n)) : SlotInv s' := by
  refine h.of_same hhandles ?_ htaken hanswered hsends
    (h.completing.of_holds (fun slot _ => (hhandles slot).holds) hcompleting) (by rw [hphase])
    fun hended => ?_
  · unfold due
    rw [hcompleting, hphase]
  · rw [hcompleting]
    exact (h.ended hended).1

/-- A step of the worker that goes on while it runs and owes nothing before and after. -/
theorem SlotInv.of_worker (h : SlotInv s)
    (hhandles : ∀ slot, SameHolder (s.handles slot) (s'.handles slot))
    (hsends : s'.sends = s.sends) (htaken : taken s' = taken s)
    (hanswered : answered s' = answered s) (hcompleting : CompletingHolds s')
    (hrunning : Running s.phase) (hrunning' : Running s'.phase)
    (hnow : dueNow s'.completing = dueNow s.completing) : SlotInv s' := by
  refine h.of_same hhandles ?_ htaken hanswered (fun n => by rw [hsends]) hcompleting
    (iff_of_true hrunning' hrunning) fun hended => absurd hrunning hended
  have hend : ∀ {phase : Phase}, Running phase → dueAtEnd phase = 0 := by
    intro phase hphase
    cases phase with
    | offline completedMessages => cases hphase
    | _ => rfl
  unfold due
  rw [hnow, hend hrunning, hend hrunning']

theorem SlotInv.running_of_completing (h : SlotInv s) {completing : Completing}
    (hcompleting : s.completing = some completing) : Running s.phase := by
  by_contra hended
  have hnone := (h.ended hended).1
  rw [hcompleting] at hnone
  cases hnone

/-- A call of `Send` goes on without a slot to take. -/
theorem hasTaken_setSend {n : ℕ} {after : SendState} (h : hasTaken after = hasTaken (s.sends n))
    (m : ℕ) : hasTaken ((s.setSend n after).sends m) = hasTaken (s.sends m) := by
  by_cases heq : m = n
  · subst heq
    show hasTaken (Function.update s.sends m after m) = _
    rw [Function.update_self, h]
  · show hasTaken (Function.update s.sends n after m) = _
    rw [Function.update_of_ne heq]

/-! ### The steps that take, release and answer -/

theorem slotInv_takes (h : SlotInv s) {n : ℕ} {r : SendRequest} {slot : Slot}
    (hsend : s.sends n = .locking r) (hfree : s.freeSlot = some slot) (hrunning : Running s.phase) :
    SlotInv (((s.setHandle slot (take (s.handles slot) r.id (some n) r.headerCallback
      r.dataCallback r.payload)).setSend n (.configuring slot r)).record (.took n)) := by
  have hunused := inUse_of_freeSlot hfree
  have hnew : n ∉ taken s := by
    rw [h.taken_iff, hsend]
    exact Bool.false_ne_true
  set handle := take (s.handles slot) r.id (some n) r.headerCallback r.dataCallback r.payload
  have hholds : Holds handle n := ⟨rfl, rfl, rfl⟩
  have hself : Function.update s.handles slot handle slot = handle := Function.update_self ..
  have hother : ∀ other, other ≠ slot →
      Function.update s.handles slot handle other = s.handles other :=
    fun other hne => Function.update_of_ne hne ..
  refine
    { balanced := ?_, taken_iff := ?_, held := ?_, free := ?_, completing := ?_, running := ?_,
      ended := fun hended => absurd hrunning hended }
  · have howed : owedBy owedBySlot (Function.update s.handles slot handle) =
        owedBy owedBySlot s.handles + {n} := by
      rw [owedBy_update_of_free (owedBySlot_of_free fun huse => ?_), owedBySlot_of_holds hholds]
      rw [hunused] at huse
      cases huse.1
    have hbalanced := h.balanced.take (d := n) hnew
    unfold owed at hbalanced
    rw [add_right_comm, ← howed] at hbalanced
    exact hbalanced
  · intro m
    show m ∈ n :: taken s ↔ hasTaken (Function.update s.sends n (.configuring slot r) m) = true
    by_cases heq : m = n
    · subst heq
      rw [Function.update_self]
      exact iff_of_true List.mem_cons_self rfl
    · rw [Function.update_of_ne heq, ← h.taken_iff, List.mem_cons, or_iff_right heq]
  · intro other huse
    show ∃ m, (Function.update s.handles slot handle other).callback = some m ∧ m ∈ n :: taken s
    by_cases heq : other = slot
    · subst heq
      rw [hself]
      exact ⟨n, rfl, List.mem_cons_self⟩
    · have huse' : (s.handles other).inUse = true := by
        rw [← hother other heq]
        exact huse
      obtain ⟨m, hm, hmem⟩ := h.held other huse'
      rw [hother other heq]
      exact ⟨m, hm, List.mem_cons_of_mem n hmem⟩
  · intro other hfree' m hm
    by_cases heq : other = slot
    · subst heq
      have huse : (Function.update s.handles other handle other).inUse = true := by
        rw [hself]
        rfl
      exact absurd (huse.symm.trans hfree') (by decide)
    · have hsame := hother other heq
      exact h.free other (by rw [← hsame]; exact hfree') m (by rw [← hsame]; exact hm)
  · refine h.completing.of_holds (fun other request hother' => ?_) rfl
    show Holds (Function.update s.handles slot handle other) request
    rw [hother other]
    · exact hother'
    · rintro rfl
      rw [hother'.inUse] at hunused
      cases hunused
  · intro _ other huse
    by_cases heq : other = slot
    · subst heq
      show (Function.update s.handles other handle other).handle = true
      rw [hself]
      rfl
    · show (Function.update s.handles slot handle other).handle = true
      rw [hother other heq]
      refine h.running hrunning other ?_
      rw [← hother other heq]
      exact huse

/-- `CompleteMessage` releases a slot and is about to call its callback. -/
theorem slotInv_releases (h : SlotInv s) {slot : Slot} {callback id : ℕ} {status : ℤ}
    {cause : Cause} (hrunning : Running s.phase) (hholds : Holds (s.handles slot) callback)
    (hdue : dueNow s.completing = 0) :
    SlotInv { s.setHandle slot (releaseHandleUnlocked (s.handles slot)) with
      completing := some (.answering callback id status cause) } := by
  have hself : Function.update s.handles slot (releaseHandleUnlocked (s.handles slot)) slot =
      releaseHandleUnlocked (s.handles slot) := Function.update_self ..
  have hother : ∀ other, other ≠ slot →
      Function.update s.handles slot (releaseHandleUnlocked (s.handles slot)) other =
        s.handles other := fun other hne => Function.update_of_ne hne ..
  refine
    { balanced := ?_, taken_iff := h.taken_iff, held := ?_, free := ?_, completing := trivial,
      running := ?_, ended := fun hended => absurd hrunning hended }
  · have hreleased : owedBySlot (releaseHandleUnlocked (s.handles slot)) = 0 :=
      owedBySlot_of_free fun huse => Bool.false_ne_true huse.1
    have howed := owedBy_update_of_release s.handles slot hreleased
    rw [owedBySlot_of_holds hholds] at howed
    have hsame : owed { s.setHandle slot (releaseHandleUnlocked (s.handles slot)) with
        completing := some (.answering callback id status cause) } = owed s := by
      show owedBy owedBySlot (Function.update s.handles slot
        (releaseHandleUnlocked (s.handles slot))) + ({callback} + dueAtEnd s.phase) =
          owedBy owedBySlot s.handles + (dueNow s.completing + dueAtEnd s.phase)
      rw [hdue, zero_add, ← add_assoc, howed]
    rw [hsame]
    exact h.balanced
  · intro other huse
    have hne : other ≠ slot := by
      rintro rfl
      exact Bool.false_ne_true ((congrArg RequestHandle.inUse hself).symm.trans huse)
    have hsame := hother other hne
    obtain ⟨m, hm, hmem⟩ := h.held other (by rw [← hsame]; exact huse)
    exact ⟨m, (congrArg RequestHandle.callback hsame).trans hm, hmem⟩
  · intro other hfree m hm
    by_cases heq : other = slot
    · subst heq
      have hnone := (congrArg RequestHandle.callback hself).symm.trans hm
      cases hnone
    · have hsame := hother other heq
      exact h.free other (by rw [← hsame]; exact hfree) m (by rw [← hsame]; exact hm)
  · intro _ other huse
    have hne : other ≠ slot := by
      rintro rfl
      exact Bool.false_ne_true ((congrArg RequestHandle.inUse hself).symm.trans huse)
    have hsame := hother other hne
    exact (congrArg RequestHandle.handle hsame).trans
      (h.running hrunning other (by rw [← hsame]; exact huse))

/-- A callback is called that the worker was about to call. -/
theorem SlotInv.of_answered (h : SlotInv s) {callback : ℕ} (hhandles : s'.handles = s.handles)
    (hsends : s'.sends = s.sends) (htaken : taken s' = taken s)
    (hanswered : answered s' = callback :: answered s) (hdue : due s = due s' + {callback})
    (hrunning : Running s'.phase ↔ Running s.phase)
    (hcompleting : s'.completing = s.completing ∨ s'.completing = some .returned)
    (hended : ¬ Running s.phase → s'.completing = s.completing) : SlotInv s' where
  balanced := by
    have hbalanced := h.balanced
    unfold owed at hbalanced
    rw [hdue, ← add_assoc] at hbalanced
    rw [htaken, hanswered]
    unfold owed
    rw [hhandles]
    exact hbalanced.discharge
  taken_iff n := by rw [htaken, hsends, h.taken_iff]
  held slot huse := by
    rw [hhandles] at huse ⊢
    rw [htaken]
    exact h.held slot huse
  free slot hfree n hn := by
    rw [hhandles] at hfree hn
    rw [hanswered]
    exact List.mem_cons_of_mem callback (h.free slot hfree n hn)
  completing := by
    rcases hcompleting with hsame | hreturned
    · exact h.completing.of_holds (fun slot request hholds => by rwa [hhandles]) hsame
    · unfold CompletingHolds
      rw [hreturned]
      trivial
  running hphase slot huse := by
    rw [hhandles] at huse ⊢
    exact h.running (hrunning.mp hphase) slot huse
  ended hphase := by
    rw [hrunning] at hphase
    rw [hended hphase, hhandles]
    exact h.ended hphase

/-! ### The steps that start and end the worker -/

/-- Nothing is owed when the worker has ended. -/
theorem SlotInv.owed_eq_zero (h : SlotInv s) (hphase : s.phase = .ended) : owed s = 0 := by
  have hended : ¬ Running s.phase := by
    rw [hphase]
    exact id
  obtain ⟨hnone, hheld⟩ := h.ended hended
  unfold owed due
  rw [hnone, hphase, owedBy_eq_zero fun slot => owedBySlot_of_free fun huse => ?_]
  · rfl
  · rw [hheld slot huse.1] at huse
    cases huse.2

theorem slotInv_initializes (h : SlotInv s) (hphase : s.phase = .ended) :
    SlotInv { s with
      handles := fun slot =>
        { s.handles slot with handle := slot.val < kStaticHandleCount, inUse := false }
      multi := Multi.empty
      phase := .starting } := by
  have hzero := h.owed_eq_zero hphase
  have hnone : s.completing = none := (h.ended (by rw [hphase]; exact id)).1
  have hfree : ∀ slot, owedBySlot { s.handles slot with
      handle := slot.val < kStaticHandleCount, inUse := false } = 0 :=
    fun slot => owedBySlot_of_free fun huse => Bool.false_ne_true huse.1
  refine
    { balanced := ?_, taken_iff := h.taken_iff, held := fun slot huse => ?_,
      free := fun slot _ n hn => ?_, completing := ?_, running := fun _ slot huse => ?_,
      ended := fun hended => absurd trivial hended }
  · have howed : owed { s with
        handles := fun slot =>
          { s.handles slot with handle := slot.val < kStaticHandleCount, inUse := false }
        multi := Multi.empty
        phase := .starting } = 0 := by
      unfold owed due
      rw [owedBy_eq_zero hfree, hnone]
      rfl
    rw [howed, ← hzero]
    exact h.balanced
  · cases huse
  · cases huse : (s.handles slot).inUse with
    | false => exact h.free slot huse n hn
    | true =>
      obtain ⟨m, hm, hmem⟩ := h.held slot huse
      have heq : n = m := Option.some.inj (hn.symm.trans hm)
      subst heq
      have hmem' := h.balanced.mem_iff.mp (Multiset.mem_coe.mpr hmem)
      rw [hzero] at hmem'
      rcases hmem' with howed | hanswered
      · exact absurd howed (Multiset.notMem_zero n)
      · exact Multiset.mem_coe.mp hanswered
  · unfold CompletingHolds
    rw [hnone]
    trivial
  · cases huse

/-- `Teardown` finds all that the slots owe. -/
theorem owedBy_eq_pending (s : CurlState) :
    owedBy owedBySlot s.handles = (s.pending.map Prod.fst : List ℕ) := by
  have hslots : ∀ slots : List Slot, (slots.map fun slot => owedBySlot (s.handles slot)).sum =
      ((slots.filterMap fun slot =>
        if (s.handles slot).handle && (s.handles slot).inUse then
          (s.handles slot).callback.map fun callback => (callback, (s.handles slot).id)
        else none).map Prod.fst : List ℕ) := by
    intro slots
    induction slots with
    | nil => rfl
    | cons slot slots ih =>
      rw [List.map_cons, List.sum_cons, ih, List.filterMap_cons]
      unfold owedBySlot
      rw [Bool.and_comm]
      split
      · cases (s.handles slot).callback with
        | none => exact zero_add _
        | some callback => rfl
      · exact zero_add _
  unfold owedBy CurlState.pending
  rw [Fin.sum_univ_def]
  exact hslots _

theorem slotInv_tearsDown (h : SlotInv s) (hcompleting : s.completing = none)
    (hphase : s.phase = .leaving) :
    SlotInv { s with
      events := []
      handles := fun slot => { s.handles slot with handle := false }
      multi := Multi.empty
      phase := .offline s.pending } := by
  have hfree : ∀ slot, owedBySlot { s.handles slot with handle := false } = 0 :=
    fun slot => owedBySlot_of_free fun huse => Bool.false_ne_true huse.2
  refine
    { balanced := ?_, taken_iff := h.taken_iff, held := h.held, free := h.free, completing := ?_,
      running := fun hrunning => absurd hrunning id
      ended := fun _ => ⟨hcompleting, fun _ _ => rfl⟩ }
  · have howed : owed { s with
        events := []
        handles := fun slot => { s.handles slot with handle := false }
        multi := Multi.empty
        phase := .offline s.pending } = owed s := by
      unfold owed due
      rw [owedBy_eq_zero hfree, hphase, owedBy_eq_pending, hcompleting]
      show 0 + (0 + _) = _ + (0 + 0)
      rw [zero_add, zero_add, add_zero, add_zero]
      rfl
    rw [howed]
    exact h.balanced
  · unfold CompletingHolds
    dsimp only
    rw [hcompleting]
    trivial

theorem slotInv_ends (h : SlotInv s) (hcompleting : s.completing = none)
    (hphase : s.phase = .offline []) : SlotInv { s with state := .STOPPED, phase := .ended } := by
  have hended : ¬ Running s.phase := by
    rw [hphase]
    exact id
  refine h.of_same (fun slot => SameHolder.refl _) ?_ rfl rfl (fun _ => rfl)
    (h.completing.of_holds (fun _ _ => id) rfl) (iff_of_false id hended) fun _ => hcompleting
  unfold due
  rw [hphase]
  rfl

/-! ### Every step -/

theorem slotInv_step (h : SlotInv s) {event : CurlEvent} (hkept : Kept s event)
    (hstep : s.step event = some s') : SlotInv s' := by
  have hsame : ∀ slot, SameHolder (s.handles slot) (s.handles slot) := fun _ => SameHolder.refl _
  cases transition_of_step hstep with
  | initializes hended => exact slotInv_initializes h hended
  | deinitializes stops => exact h.of_callers hsame rfl rfl rfl rfl fun _ => rfl
  | stops hstops => exact h.of_callers hsame rfl rfl rfl rfl fun _ => rfl
  | cancels cancels => exact h.of_callers hsame rfl rfl rfl rfl fun _ => rfl
  | sendMoves hmoves =>
    exact h.of_callers hsame rfl rfl rfl rfl (hasTaken_setSend hmoves.hasTaken_eq)
  | sendFails error hsend hevent =>
    rcases hevent with rfl | ⟨rfl, hstopped⟩
    · exact absurd hkept id
    · have hstarted : s.isStarted = true := hkept
      rw [hstopped] at hstarted
      cases hstarted
  | takes created hsend hfree =>
    refine slotInv_takes h hsend hfree (hkept ?_)
    rw [hfree]
    rfl
  | @configures n r slot hsend =>
    refine h.of_callers (sameHolder_setHandle s (sameHolder_configure _ _ _ _)) rfl rfl rfl rfl
      (hasTaken_setSend ?_)
    show true = hasTaken (s.sends n)
    rw [hsend]
    rfl
  | @queues n slot hsend =>
    refine h.of_callers hsame rfl rfl rfl rfl (hasTaken_setSend ?_)
    show true = hasTaken (s.sends n)
    rw [hsend]
    rfl
  | marks id cancels huse =>
    exact h.of_callers (sameHolder_setHandle s ⟨rfl, fun _ => rfl, rfl⟩) rfl rfl rfl rfl
      fun _ => rfl
  | unknown hcompleting hunknown =>
    have hrunning := h.running_of_completing hcompleting
    exact h.of_worker hsame rfl rfl rfl trivial hrunning hrunning (by rw [hcompleting]; rfl)
  | @drops slot _ _ hcompleting huse hcallback =>
    obtain ⟨n, hn, -⟩ := h.held slot huse
    rw [hcallback] at hn
    cases hn
  | answersCancelled hcompleting huse hhandle hcallback hcancelled =>
    exact slotInv_releases h (h.running_of_completing hcompleting) ⟨huse, hhandle, hcallback⟩
      (by rw [hcompleting]; rfl)
  | finds hcompleting huse hhandle hcallback =>
    have hrunning := h.running_of_completing hcompleting
    exact h.of_worker hsame rfl rfl rfl ⟨huse, hhandle, hcallback⟩ hrunning hrunning
      (by rw [hcompleting]; rfl)
  | @decides slot outcome cause callback status completing hcompleting hstatus hdecision =>
    have hrunning := h.running_of_completing hcompleting
    have hholds : Holds (s.handles slot) callback := by
      have hfound := h.completing
      unfold CompletingHolds at hfound
      rw [hcompleting] at hfound
      exact hfound
    have hhandles := sameHolder_setHandle s
      (sameHolder_of_sameRequest (sameRequest_retry (s.handles slot) status))
    refine h.of_worker hhandles rfl rfl rfl ?_ hrunning hrunning ?_
    · rcases hdecision with ⟨rfl, -⟩ | ⟨id, rfl⟩
      · trivial
      · exact (hhandles slot).holds hholds
    · rw [hcompleting]
      rcases hdecision with ⟨rfl, -⟩ | ⟨id, rfl⟩
      · rfl
      · rfl
  | retries hcompleting =>
    have hrunning := h.running_of_completing hcompleting
    exact h.of_worker hsame rfl rfl rfl trivial hrunning hrunning (by rw [hcompleting]; rfl)
  | @releases slot callback id status cause hcompleting =>
    have hholds : Holds (s.handles slot) callback := by
      have hfound := h.completing
      unfold CompletingHolds at hfound
      rw [hcompleting] at hfound
      exact hfound
    exact slotInv_releases h (h.running_of_completing hcompleting) hholds (by rw [hcompleting]; rfl)
  | @answers callback id status cause hcompleting =>
    have hrunning := h.running_of_completing hcompleting
    refine h.of_answered rfl rfl rfl rfl ?_ Iff.rfl (Or.inr rfl)
      fun hended => absurd hrunning hended
    unfold due
    rw [hcompleting]
    show {callback} + dueAtEnd s.phase = 0 + dueAtEnd s.phase + {callback}
    rw [zero_add, add_comm]
  | returns hcompleting =>
    have hrunning := h.running_of_completing hcompleting
    exact h.of_worker hsame rfl rfl rfl trivial hrunning hrunning (by rw [hcompleting]; rfl)
  | moves state phase hcompleting hmoves =>
    exact h.of_worker hsame rfl rfl rfl (h.completing.of_holds (fun _ _ => id) rfl) hmoves.running
      hmoves.running' rfl
  | findsLost lost hcompleting hphase =>
    exact h.of_worker hsame rfl rfl rfl (h.completing.of_holds (fun _ _ => id) rfl)
      (by rw [hphase]; trivial) trivial rfl
  | skips hcompleting hphase hevents huse =>
    exact h.of_callers hsame rfl rfl rfl rfl fun _ => rfl
  | adds hcompleting hphase hevents huse htype hnone =>
    exact h.of_callers hsame rfl rfl rfl rfl fun _ => rfl
  | rejects hcompleting hphase hevents huse htype =>
    exact h.of_worker hsame rfl rfl rfl (h.completing.of_holds (fun _ _ => id) rfl)
      (by rw [hphase]; trivial) trivial rfl
  | cancelsHandle hcompleting hphase hevents huse htype =>
    have hrunning : Running s.phase := by
      rw [hphase]
      trivial
    exact h.of_worker hsame rfl rfl rfl trivial hrunning hrunning (by rw [hcompleting]; rfl)
  | failsNext hcompleting hphase =>
    exact h.of_worker hsame rfl rfl rfl trivial (by rw [hphase]; trivial) trivial
      (by rw [hcompleting]; rfl)
  | @transfers addition a hcompleting hphase hfinish =>
    have hrunning : Running s.phase := by
      rw [hphase]
      trivial
    have hhandles := sameHolder_setHandle s
      (sameHolder_of_sameRequest (sameRequest_transfer s.isStarted a (s.handles addition.slot)))
    exact h.of_worker hhandles rfl rfl rfl
      (h.completing.of_holds (fun slot _ => (hhandles slot).holds) rfl) hrunning hrunning rfl
  | reads hcompleting hphase hmessages =>
    exact h.of_worker hsame rfl rfl rfl trivial (by rw [hphase]; trivial) trivial
      (by rw [hcompleting]; rfl)
  | releasesLost hcompleting hphase =>
    exact h.of_worker hsame rfl rfl rfl trivial (by rw [hphase]; trivial) trivial
      (by rw [hcompleting]; rfl)
  | cleans cleaned hcompleting hphase hcleaned =>
    have hhandles : ∀ slot, SameHolder (s.handles slot) { s.handles slot with
        handle := (s.handles slot).handle && !cleaned slot } := by
      refine fun slot => ⟨rfl, fun huse => ?_, rfl⟩
      cases hslot : cleaned slot with
      | false => exact Bool.and_true _
      | true =>
        rw [hcleaned slot hslot] at huse
        cases huse
    exact h.of_worker hhandles rfl rfl rfl
      (h.completing.of_holds (fun slot _ => (hhandles slot).holds) rfl) (by rw [hphase]; trivial)
      trivial rfl
  | tearsDown hcompleting hphase => exact slotInv_tearsDown h hcompleting hphase
  | @answersOffline callback id completedMessages hcompleting hphase =>
    have hended : ¬ Running s.phase := by
      rw [hphase]
      exact fun hrunning => hrunning
    refine h.of_answered rfl rfl rfl rfl ?_ (iff_of_false (fun hrunning => hrunning) hended)
      (Or.inl rfl) fun _ => rfl
    unfold due
    rw [hphase, add_assoc]
    congr 1
    show ((callback :: completedMessages.map Prod.fst : List ℕ) : Multiset ℕ) = _
    rw [← Multiset.cons_coe, ← Multiset.singleton_add, add_comm]
    rfl
  | ends hcompleting hphase => exact slotInv_ends h hcompleting hphase

/-- After `Teardown` no slot is in use, if it found none. -/
theorem drained_step (h : ¬ Running s.phase → ∀ slot, (s.handles slot).inUse = false)
    {event : CurlEvent} (hkept : Kept s event) (hdrained : Drained s event)
    (hstep : s.step event = some s') (hended : ¬ Running s'.phase) :
    ∀ slot, (s'.handles slot).inUse = false := by
  cases transition_of_step hstep with
  | initializes hphase => exact absurd trivial hended
  | takes created hsend hfree =>
    exact absurd (hkept (by rw [hfree]; rfl)) hended
  | configures hsend =>
    intro slot
    exact (sameHolder_setHandle s (sameHolder_configure _ _ _ _) slot).inUse.trans (h hended slot)
  | @marks slot id cancels huse =>
    rw [h hended slot] at huse
    cases huse
  | @drops slot _ _ hcompleting huse hcallback =>
    rw [h hended slot] at huse
    cases huse
  | @answersCancelled slot _ _ _ hcompleting huse hhandle hcallback hcancelled =>
    rw [h hended slot] at huse
    cases huse
  | decides completing hcompleting hstatus hdecision =>
    intro slot
    exact (sameHolder_setHandle s
      (sameHolder_of_sameRequest (sameRequest_retry _ _)) slot).inUse.trans (h hended slot)
  | @releases slot callback id status cause hcompleting =>
    intro other
    show (Function.update s.handles slot
      (releaseHandleUnlocked (s.handles slot)) other).inUse = false
    by_cases heq : other = slot
    · subst heq
      rw [Function.update_self]
      rfl
    · rw [Function.update_of_ne heq]
      exact h hended other
  | moves state phase hcompleting hmoves => exact absurd hmoves.running' hended
  | findsLost lost hcompleting hphase => exact absurd trivial hended
  | rejects hcompleting hphase hevents huse htype => exact absurd trivial hended
  | failsNext hcompleting hphase => exact absurd trivial hended
  | transfers a hcompleting hphase hfinish =>
    exact absurd (show Running s.phase by rw [hphase]; trivial) hended
  | reads hcompleting hphase hmessages => exact absurd trivial hended
  | releasesLost hcompleting hphase => exact absurd trivial hended
  | cleans cleaned hcompleting hphase hcleaned => exact absurd trivial hended
  | tearsDown hcompleting hphase => exact hdrained
  | answersOffline hcompleting hphase =>
    refine h ?_
    rw [hphase]
    exact id
  | ends hcompleting hphase =>
    refine h ?_
    rw [hphase]
    exact id
  | _ => exact h hended

end Step

/-! ## Runs -/

theorem slotInv_new : SlotInv CurlState.new where
  balanced := by
    have howed : owed CurlState.new = 0 := by
      unfold owed
      rw [owedBy_eq_zero fun slot => owedBySlot_of_free fun huse => Bool.false_ne_true huse.1]
      rfl
    rw [howed]
    exact ⟨Multiset.nodup_zero, rfl⟩
  taken_iff n := iff_of_false List.not_mem_nil Bool.false_ne_true
  held slot huse := by cases huse
  free slot _ n hn := by cases hn
  completing := trivial
  running hrunning := absurd hrunning id
  ended _ := ⟨rfl, fun _ huse => by cases huse⟩

theorem slotInv_run {events : List CurlEvent} {s : CurlState} (h : CurlState.run events = some s)
    (hkept : Along CurlState.step Kept CurlState.new events) : SlotInv s :=
  invariant_along SlotInv (fun _ _ _ hs hevent hstep => slotInv_step hs hevent hstep) h hkept
    slotInv_new

/-- A slot is in use exactly while it holds a request that a `Send` has taken it for, which has
not failed, and whose callback has not been called. -/
def UseExact (s : CurlState) : Prop :=
  ∀ slot, (s.handles slot).inUse = true ↔
    ∃ n, (s.handles slot).callback = some n ∧ hasTaken (s.sends n) = true ∧ n ∉ answered s

/-- What holds of the callbacks in every state.
* `at_most_once`: no callback is called twice;
* `failed`: a `Send` that has failed has no slot, and its callback is not called;
* `waiting`: a request whose callback has not been called is in one slot, or the worker is about
  to call it;
* `exactly_once`: when the worker has ended, the callback of every request that was accepted has
  been called once. -/
structure AnsweredOnce (s : CurlState) : Prop where
  at_most_once : ∀ n, (answered s).count n ≤ 1
  failed : ∀ n error, s.sends n = .failed error →
    n ∉ answered s ∧ ∀ slot, (s.handles slot).inUse = true → (s.handles slot).callback ≠ some n
  waiting : ∀ n, s.sends n = .accepted → n ∉ answered s →
    n ∈ due s ∨ ∃ slot, Holds (s.handles slot) n ∧ ∀ other, Holds (s.handles other) n → other = slot
  exactly_once : s.phase = .ended → ∀ n, s.sends n = .accepted → (answered s).count n = 1

theorem SlotInv.answeredOnce {s : CurlState} (h : SlotInv s) : AnsweredOnce s where
  at_most_once n :=
    List.nodup_iff_count_le_one.mp (Multiset.coe_nodup.mp h.balanced.discharged_nodup) n
  failed n error hfailed := by
    have hnot : n ∉ taken s := by
      rw [h.taken_iff, hfailed]
      exact Bool.false_ne_true
    refine ⟨fun hanswered => hnot ?_, fun slot huse hcallback => hnot ?_⟩
    · exact Multiset.mem_coe.mp (h.balanced.mem_iff.mpr (Or.inr (Multiset.mem_coe.mpr hanswered)))
    · obtain ⟨m, hm, hmem⟩ := h.held slot huse
      rw [hcallback] at hm
      cases hm
      exact hmem
  waiting n haccepted hanswered := by
    have hmem : n ∈ taken s := by
      rw [h.taken_iff, haccepted]
      rfl
    rcases h.balanced.mem_iff.mp (Multiset.mem_coe.mpr hmem) with howed | hdone
    · rcases Multiset.mem_add.mp howed with hslots | hdue
      · obtain ⟨slot, hslot⟩ := mem_owedBy.mp hslots
        refine Or.inr ⟨slot, mem_owedBySlot.mp hslot, fun other hother => ?_⟩
        exact slot_unique_of_nodup (Multiset.nodup_add.mp h.balanced.owed_nodup).1 hslot
          (mem_owedBySlot.mpr hother)
      · exact Or.inl hdue
    · exact absurd (Multiset.mem_coe.mp hdone) hanswered
  exactly_once hphase n haccepted := by
    have hmem : n ∈ taken s := by
      rw [h.taken_iff, haccepted]
      rfl
    have hanswered := h.balanced.mem_iff.mp (Multiset.mem_coe.mpr hmem)
    rw [h.owed_eq_zero hphase] at hanswered
    rcases hanswered with hzero | hanswered
    · exact absurd hzero (Multiset.notMem_zero n)
    · exact List.count_eq_one_of_mem (Multiset.coe_nodup.mp h.balanced.discharged_nodup)
        (Multiset.mem_coe.mp hanswered)

theorem SlotInv.useExact {s : CurlState} (h : SlotInv s)
    (heasy : ∀ slot, (s.handles slot).inUse = true → (s.handles slot).handle = true) :
    UseExact s := by
  intro slot
  constructor
  · intro huse
    obtain ⟨n, hn, hmem⟩ := h.held slot huse
    refine ⟨n, hn, (h.taken_iff n).mp hmem, fun hanswered => ?_⟩
    refine h.balanced.notMem_discharged ?_ (Multiset.mem_coe.mpr hanswered)
    exact Multiset.mem_add.mpr
      (Or.inl (mem_owedBy.mpr ⟨slot, mem_owedBySlot.mpr ⟨huse, heasy slot huse, hn⟩⟩))
  · rintro ⟨n, hn, -, hanswered⟩
    cases huse : (s.handles slot).inUse with
    | true => rfl
    | false => exact absurd (h.free slot huse n hn) hanswered

/-- **The slots and callbacks of `NetworkCurl`**, for every interleaving of callers and worker in
which no `Send` fails behind `GetHandle` and none takes a slot between `Teardown` and the next
`Initialize`: the callbacks are called once, and the slots in use are exact as long as the worker
runs; if `Teardown` never finds a slot in use, they are exact always.
SOURCE: NetworkCurl.cpp:280-358, NetworkCurl.cpp:381-683, NetworkCurl.cpp:805-1199,
NetworkProtocolCurl.cpp:441-730 -/
theorem slots_kept {events : List CurlEvent} {s : CurlState} (h : CurlState.run events = some s)
    (hkept : Along CurlState.step Kept CurlState.new events) :
    AnsweredOnce s ∧ (Running s.phase → UseExact s) ∧
      (Along CurlState.step Drained CurlState.new events → UseExact s) := by
  have hinv := slotInv_run h hkept
  refine ⟨hinv.answeredOnce, fun hrunning => hinv.useExact (hinv.running hrunning),
    fun hdrained => hinv.useExact fun slot huse => ?_⟩
  have hended : ¬ Running s.phase → ∀ slot, (s.handles slot).inUse = false :=
    invariant_along (fun s => ¬ Running s.phase → ∀ slot, (s.handles slot).inUse = false)
      (fun _ _ _ hs hevent hstep => drained_step hs hevent.1 hevent.2 hstep) h
      (along_and hkept hdrained) fun _ _ => rfl
  by_cases hrunning : Running s.phase
  · exact hinv.running hrunning slot huse
  · rw [hended hrunning slot] at huse
    cases huse

/-- A request that is accepted. -/
theorem slots_kept_one_request :
    ∃ s, CurlState.run [.initializeWorker, .worker .runStarts,
        .send 0 ⟨1, false, false, none, 3, false, false⟩, .sendImplementation 0, .checkHandle 0,
        .getHandle 0 true, .configureHandle 0, .checkAgain 0, .addSendEvent 0] = some s ∧
      AnsweredOnce s ∧ (Running s.phase → UseExact s) ∧
      (Along CurlState.step Drained CurlState.new [.initializeWorker, .worker .runStarts,
        .send 0 ⟨1, false, false, none, 3, false, false⟩, .sendImplementation 0, .checkHandle 0,
        .getHandle 0 true, .configureHandle 0, .checkAgain 0, .addSendEvent 0] → UseExact s) := by
  refine ⟨_, rfl, slots_kept rfl ?_⟩
  apply along_cons_of_step trivial rfl
  apply along_cons_of_step trivial rfl
  apply along_cons_of_step trivial rfl
  apply along_cons_of_step trivial rfl
  apply along_cons_of_step trivial rfl
  apply along_cons_of_step (fun _ => trivial) rfl
  apply along_cons_of_step trivial rfl
  refine along_cons_of_step ?_ rfl ?_
  · rfl
  · apply along_cons_of_step trivial rfl
    trivial

/-- Curl does not take an option: `Send` returns an error, its slot stays in use, and its
callback is called when the worker ends. -/
theorem failed_option_keeps_slot :
    ∃ s, CurlState.run [.initializeWorker, .worker .runStarts,
        .send 0 ⟨1, false, false, none, 3, false, false⟩, .sendImplementation 0, .checkHandle 0,
        .getHandle 0 true, .configureHandle 0, .optionFails 0, CurlEvent.deinitialize, .stop,
        .worker .iterate, .worker .teardown, .worker .answerOffline] = some s ∧
      s.sends 0 = .failed .optionFailed ∧
      (∃ slot, (s.handles slot).inUse = true ∧ (s.handles slot).callback = some 0) ∧
      answered s = [0] :=
  ⟨_, rfl, rfl, ⟨⟨0, by decide⟩, rfl, rfl⟩, rfl⟩

end OlpEdgeSdk.Analysis.CurlSlots

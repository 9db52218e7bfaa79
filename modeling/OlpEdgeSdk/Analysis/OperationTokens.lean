import OlpEdgeSdk.Analysis.OperationSteps
import OlpEdgeSdk.Base.Entries

/-!
# Which operations have a token

`tokenList_` has an entry for every operation that is under way and for no other, as long as no
call adds its token after its callback, no exception leaves a call, and `CheckDataExists`, which
does not remove its token when it gives up, does not give up after its call has returned.

SOURCE: VersionedLayerClientImpl.cpp:169-579, 751-806, CancellationTokenList.cpp:42-56
-/

set_option autoImplicit false

namespace OlpEdgeSdk.Analysis.VersionedLayerClient

open OlpEdgeSdk.Base OlpEdgeSdk.Model OlpEdgeSdk.Model.VersionedLayerClient
open OlpEdgeSdk.Model.LayerClientInit (Service InitState versionedLayerServices)

/-! ## The list of tokens -/

section

variable {id : ℕ} {tokenList : List ℕ}

theorem addTask_perm : (addTask id tokenList).Perm (id :: tokenList) := by
  unfold addTask
  refine List.perm_middle.trans (List.Perm.cons id ?_)
  rw [List.takeWhile_append_dropWhile]

theorem addTask_sorted (h : tokenList.Pairwise (· ≤ ·)) :
    (addTask id tokenList).Pairwise (· ≤ ·) := by
  induction tokenList with
  | nil => exact List.pairwise_singleton _ _
  | cons task rest ih =>
    obtain ⟨hle, hrest⟩ := List.pairwise_cons.mp h
    by_cases htask : task ≤ id
    · have hcons : addTask id (task :: rest) = task :: addTask id rest := by
        simp [addTask, htask]
      rw [hcons, List.pairwise_cons]
      refine ⟨fun other hother => ?_, ih hrest⟩
      rcases List.mem_cons.mp (addTask_perm.mem_iff.mp hother) with rfl | hother
      · exact htask
      · exact hle other hother
    · have hcons : addTask id (task :: rest) = id :: task :: rest := by
        simp [addTask, htask]
      have hid : id ≤ task := Nat.le_of_not_le htask
      rw [hcons, List.pairwise_cons]
      refine ⟨fun other hother => ?_, h⟩
      rcases List.mem_cons.mp hother with rfl | hother
      · exact hid
      · exact Nat.le_trans hid (hle other hother)

/-- In a sorted list `RemoveTask` finds the entry. -/
theorem removeTask_eq_erase (h : tokenList.Pairwise (· ≤ ·)) :
    removeTask id tokenList = tokenList.erase id := by
  induction tokenList with
  | nil => rfl
  | cons task rest ih =>
    obtain ⟨hle, hrest⟩ := List.pairwise_cons.mp h
    by_cases htask : task < id
    · have hcons : removeTask id (task :: rest) = task :: removeTask id rest := by
        simp only [removeTask, List.dropWhile_cons_of_pos, List.takeWhile_cons_of_pos, htask,
          decide_true]
        split
        · rfl
        · split <;> rfl
      rw [hcons, ih hrest, List.erase_cons_tail]
      exact fun heq => Nat.ne_of_lt htask (beq_iff_eq.mp heq)
    · have hcons : removeTask id (task :: rest) = if task = id then rest else task :: rest := by
        simp [removeTask, htask]
      rw [hcons]
      split
      · rename_i heq
        rw [heq, List.erase_cons_head]
      · rename_i hne
        refine (List.erase_of_not_mem fun hmem => ?_).symm
        rcases List.mem_cons.mp hmem with heq | hmem
        · exact hne heq.symm
        · exact htask (Nat.lt_of_le_of_ne (hle id hmem) hne)

end

/-! ## What an operation keeps -/

/-- What holds of the place of an operation that does not remove its token when it gives up: it
has one part, and has entered `InitApiClients` when its call returns. -/
def Keeps (x : Execution) : Stage → Prop
  | .entering goal | .waiting goal =>
    (∃ own, goal = .request own) ∧ x.inCall = true ∧ x.onCaller = true
  | .lookingUp _ goal | .asking _ goal => ∃ own, goal = .request own
  | .finished | .thrown | .hanging => True

/-- What holds of every operation. -/
structure Steady (x : Execution) : Prop where
  answered : x.callbacks = [] ↔ x.stage ≠ .finished
  keeps : x.operation.removesOnAbort = false → Keeps x x.stage

section

variable {s : ClientState} {x : Execution}

theorem steady_begin (id : ℕ) (call : Call) : Steady (call.begin id) := by
  obtain ⟨request, dataHandle, ownsMutex⟩ := call
  constructor
  · unfold Call.begin
    dsimp only
    split
    · exact iff_of_true rfl Stage.noConfusion
    · exact iff_of_false (List.cons_ne_nil _ _) fun h => h rfl
  · intro hkeeps
    cases request with
    | checkDataExists layerId handle =>
      unfold Call.begin
      dsimp only
      split
      · exact ⟨⟨_, rfl⟩, rfl, rfl⟩
      · trivial
    | _ =>
      unfold Call.begin Execution.operation at hkeeps
      dsimp only at hkeeps
      split at hkeeps <;> cases hkeeps

/-- The goal of an operation that keeps its token when it gives up. -/
theorem Keeps.goal {stage : Stage} {goal : Goal} (h : Keeps x stage)
    (hstage : Initialises goal stage ∨ ∃ request, stage = .asking request goal) :
    ∃ own, goal = .request own := by
  rcases hstage with (rfl | rfl | ⟨rest, rfl⟩) | ⟨request, rfl⟩
  · exact h.1
  · exact h.1
  · exact h
  · exact h

theorem steady_of_finished {y : Execution} {callbacks : List Result} {result : Result}
    (hstage : y.stage = .finished) (hcallbacks : y.callbacks = callbacks ++ [result]) :
    Steady y := by
  constructor
  · refine iff_of_false ?_ fun h => h hstage
    rw [hcallbacks]
    exact List.append_ne_nil_of_right_ne_nil _ (List.cons_ne_nil _ _)
  · intro _
    rw [hstage]
    trivial

theorem steady_of_outcome {services : List Service} {goal : Goal}
    {after : ClientState × Execution} (hcallbacks : x.callbacks = [])
    (hgoal : x.operation.removesOnAbort = false → ∃ own, goal = .request own)
    (h : Outcome s x services goal after) : Steady after.2 := by
  cases h with
  | aborted => exact steady_of_finished rfl rfl
  | rejected => exact steady_of_finished rfl rfl
  | asked => exact ⟨iff_of_true hcallbacks Stage.noConfusion, hgoal⟩
  | lookingUp => exact ⟨iff_of_true hcallbacks Stage.noConfusion, hgoal⟩
  | restarted p contentType init ownsMutex _ hcatalog =>
    refine ⟨iff_of_true hcallbacks Stage.noConfusion, fun hkeeps => ?_⟩
    obtain ⟨own, hown⟩ := hgoal hkeeps
    rw [hcatalog] at hown
    cases hown

/-- A call does not return while its operation has still to enter `InitApiClients`. -/
theorem keeps_of_returned (hkeeps : Keeps x x.stage) (hcan : x.canReturn = true) :
    Keeps { x with inCall := false } x.stage := by
  cases hstage : x.stage with
  | entering goal =>
    rw [hstage] at hkeeps
    rw [Execution.canReturn, Execution.returnable, hstage, hkeeps.2.2, Bool.and_eq_true] at hcan
    cases hcan.2
  | waiting goal =>
    rw [hstage] at hkeeps
    rw [Execution.canReturn, Execution.returnable, hstage, hkeeps.2.2, Bool.and_eq_true] at hcan
    cases hcan.2
  | _ =>
    rw [hstage] at hkeeps
    exact hkeeps

theorem steady_of_acted {event : Event} {after : ClientState × Execution} (hx : Steady x)
    (h : Acted s x event after) : Steady after.2 := by
  obtain ⟨hanswered, hkeeps⟩ := hx
  have hinitialises : ∀ goal, Initialises goal x.stage → x.callbacks = [] ∧
      (x.operation.removesOnAbort = false → ∃ own, goal = .request own) := by
    intro goal hstage
    refine ⟨hanswered.mpr ?_, fun hkept => (hkeeps hkept).goal (Or.inl hstage)⟩
    rcases hstage with hstage | hstage | ⟨rest, hstage⟩ <;> rw [hstage] <;>
      exact Stage.noConfusion
  have hasking : ∀ request goal, x.stage = .asking request goal → x.callbacks = [] ∧
      (x.operation.removesOnAbort = false → ∃ own, goal = .request own) := by
    intro request goal hstage
    refine ⟨hanswered.mpr ?_, fun hkept => (hkeeps hkept).goal (Or.inr ⟨request, hstage⟩)⟩
    rw [hstage]
    exact Stage.noConfusion
  cases h with
  | derailed _ stage init onCaller ownsMutex hstage _ hderails =>
    obtain ⟨goal, hgoal⟩ := initialises_of_derails hderails
    obtain ⟨hcallbacks, -⟩ := hinitialises goal hgoal
    rcases hstage with rfl | rfl
    · exact ⟨iff_of_true hcallbacks Stage.noConfusion, fun _ => trivial⟩
    · exact ⟨iff_of_true hcallbacks Stage.noConfusion, fun _ => trivial⟩
  | waits goal hstage =>
    obtain ⟨hcallbacks, -⟩ := hinitialises goal (Or.inl hstage)
    refine ⟨iff_of_true hcallbacks Stage.noConfusion, fun hkept => ?_⟩
    have hentering := hkeeps hkept
    rw [hstage] at hentering
    exact hentering
  | entered _ goal _ hstage _ houtcome =>
    have hstage : Initialises goal x.stage := hstage.imp_right Or.inl
    obtain ⟨hcallbacks, hgoal⟩ := hinitialises goal hstage
    exact steady_of_outcome hcallbacks hgoal houtcome
  | lookedUp apis inFrame rest goal _ hstage _ _ houtcome =>
    obtain ⟨hcallbacks, hgoal⟩ := hinitialises goal (Or.inr (Or.inr ⟨rest, hstage⟩))
    obtain ⟨onCaller, ownsMutex, hanswer⟩ := answeredIn_eq (x := x) inFrame
    rw [hanswer] at houtcome
    exact steady_of_outcome (x := { x with onCaller := onCaller, ownsMutex := ownsMutex })
      hcallbacks hgoal houtcome
  | refused => exact steady_of_finished rfl rfl
  | responded => exact steady_of_finished rfl rfl
  | gotCatalog _ request p contentType catalogModel onCaller ownsMutex hstage =>
    obtain ⟨hcallbacks, hgoal⟩ := hasking request _ hstage
    refine ⟨iff_of_true hcallbacks Stage.noConfusion, fun hkept => ?_⟩
    obtain ⟨own, hown⟩ := hgoal hkept
    cases hown
  | stored _ request p contentType onCaller ownsMutex hstage =>
    obtain ⟨hcallbacks, hgoal⟩ := hasking request _ hstage
    refine ⟨iff_of_true hcallbacks Stage.noConfusion, fun hkept => ?_⟩
    obtain ⟨own, hown⟩ := hgoal hkept
    cases hown
  | cleared => exact ⟨hanswered, hkeeps⟩
  | cancelled => exact ⟨hanswered, hkeeps⟩
  | returned hcan =>
    rw [callReturns_snd]
    exact ⟨hanswered, fun hkept => keeps_of_returned (hkeeps hkept) hcan⟩

end

/-! ## What an operation gives up -/

/-- The answer to a lookup after which an operation gives up: an error, or any service if the
operation is cancelled. -/
def givesUp (isCancelled : Bool) : Except ApiError (List (List Char)) → Bool
  | .error _ => true
  | .ok urls => isCancelled && !urls.isEmpty

theorem givesUp_nil (isCancelled : Bool) : givesUp isCancelled (.ok []) = false := by
  rw [givesUp, List.isEmpty_nil, Bool.not_true, Bool.and_false]

theorem givesUp_cons (isCancelled : Bool) (url : List Char) (urls : List (List Char)) :
    givesUp isCancelled (.ok (url :: urls)) = isCancelled := by
  rw [givesUp, List.isEmpty_cons, Bool.not_false, Bool.and_true]

/-- An operation whose call has returned and whose callback has not been called. -/
def isRunning (x : Execution) : Bool := !x.inCall && x.callbacks.isEmpty

/-- The list of tokens goes wrong: an operation that does not remove its token when it gives up
gives up after its call has returned, unless the last lookup finds the mutex with its own thread;
or a call returns after its callback, or by an exception. -/
def loses (x : Execution) : Event → Bool
  | .lookedUp apis inFrame =>
    match x.stage with
    | .lookingUp rest _ =>
      x.canAnswer inFrame && !x.operation.removesOnAbort && !x.inCall &&
        !(rest.isEmpty && inFrame && x.ownsMutex) && givesUp x.isCancelled apis
    | _ => false
  | .callReturns =>
    x.canReturn && (!x.callbacks.isEmpty || x.onCaller && (x.stage = .thrown : Bool))
  | _ => false

section

variable {s : ClientState} {x : Execution} {own : SubRequest}

theorem abort_stage (e : ApiError) : (abort s x e).2.stage = .finished := by
  unfold abort
  split <;> rfl

theorem executeOrCancelled_stage {body : ClientState × Execution}
    (h : body.2.stage ≠ .finished) :
    (executeOrCancelled s x body).2.stage = .finished ↔ x.isCancelled = true := by
  unfold executeOrCancelled
  split
  · rename_i hcancelled
    exact iff_of_true (abort_stage operationCancelled) hcancelled
  · rename_i hcancelled
    exact iff_of_false h hcancelled

/-- An answer to a lookup by its three shapes: an error, no service at all, or a service. -/
theorem stage_iff_givesUp {apis : Except ApiError (List (List Char))} {stage : Stage}
    (herror : ∀ e, apis = .error e → stage = .finished)
    (hnil : apis = .ok [] → stage ≠ .finished)
    (hcons : ∀ url urls, apis = .ok (url :: urls) →
      (stage = .finished ↔ x.isCancelled = true)) :
    stage = .finished ↔ givesUp x.isCancelled apis = true := by
  cases apis with
  | error e => exact iff_of_true (herror e rfl) rfl
  | ok urls =>
    cases urls with
    | nil =>
      apply iff_of_false (hnil rfl)
      rw [givesUp_nil]
      exact Bool.noConfusion
    | cons url urls =>
      rw [givesUp_cons]
      exact hcons url urls rfl

theorem publishApiCallback_stage (apis : Except ApiError (List (List Char))) :
    (publishApiCallback s x (.request own) apis).2.stage = .finished ↔
      x.ownsMutex = false ∧ givesUp x.isCancelled apis = true := by
  unfold publishApiCallback
  split
  · rename_i howns
    refine iff_of_false Stage.noConfusion ?_
    rintro ⟨hfree, -⟩
    rw [hfree] at howns
    cases howns
  · rename_i howns
    rw [and_iff_right (Bool.eq_false_iff.mpr howns)]
    apply stage_iff_givesUp
    · rintro e rfl
      exact abort_stage e
    · rintro rfl
      exact Stage.noConfusion
    · rintro url urls rfl
      exact executeOrCancelled_stage Stage.noConfusion

theorem serviceCallback_stage {service : Service} {rest : List Service}
    (apis : Except ApiError (List (List Char))) (hset : s.init.lookupUrl ≠ []) :
    (serviceCallback s x (.request own) (service :: rest) apis).2.stage = .finished ↔
      givesUp x.isCancelled apis = true := by
  apply stage_iff_givesUp
  · rintro e rfl
    exact abort_stage e
  · rintro rfl
    exact Stage.noConfusion
  · rintro url urls rfl
    apply executeOrCancelled_stage
    rw [VersionedLayerClient.lookupApi, if_neg hset]
    exact Stage.noConfusion

theorem answeredIn_isCancelled (inFrame : Bool) :
    (x.answeredIn inFrame).isCancelled = x.isCancelled := by
  cases inFrame <;> rfl

/-- **When an operation with one part gives up** at the answer to a lookup. -/
theorem finished_iff_givesUp {rest : List Service} {apis : Except ApiError (List (List Char))}
    {inFrame : Bool} {after : ClientState × Execution} (hlookup : HasLookup s x)
    (hstage : x.stage = .lookingUp rest (.request own))
    (h : act s x (.lookedUp apis inFrame) = some after) :
    after.2.stage = .finished ↔
      (rest.isEmpty && inFrame && x.ownsMutex) = false ∧ givesUp x.isCancelled apis = true := by
  simp only [act, hstage] at h
  split at h
  · cases h
    cases rest with
    | nil =>
      rw [if_pos rfl, publishApiCallback_stage, answeredIn_ownsMutex, answeredIn_isCancelled,
        List.isEmpty_nil, Bool.true_and]
    | cons service rest =>
      rw [if_neg (List.cons_ne_nil service rest), serviceCallback_stage apis (hlookup _ _ hstage),
        answeredIn_isCancelled, List.isEmpty_cons, Bool.false_and, Bool.false_and]
      exact (and_iff_right rfl).symm
  · cases h

end

/-! ## Tracking -/

/-- **The list of tokens tracks the operations**: it has one entry for each that is running, and
none for the others. The id of an operation is its number. -/
def Tracked (s : System) : Prop :=
  ∀ id, s.shared.tokenList.count id = if (s.parties[id]?).any isRunning then 1 else 0

/-- What a step of an operation does to the list of tokens. -/
inductive TokenEffect (s : ClientState) (x : Execution) (event : Event)
    (after : ClientState × Execution) : Prop where
  | quiet (htokens : after.1.tokenList = s.tokenList) (hrunning : isRunning after.2 = isRunning x)
      (hkept : loses x event = false)
  | removed (htokens : after.1.tokenList = removeTask x.id s.tokenList)
      (hover : isRunning after.2 = false) (hkept : loses x event = false)
  | left (htokens : after.1.tokenList = s.tokenList) (hover : isRunning after.2 = false)
      (hlost : loses x event = isRunning x)
  | added (htokens : after.1.tokenList = addTask x.id s.tokenList) (hbefore : isRunning x = false)
      (hlost : loses x event = !isRunning after.2)
  | escaped (htokens : after.1.tokenList = s.tokenList) (hbefore : isRunning x = false)
      (hafter : isRunning after.2 = true) (hlost : loses x event = true)

section

variable {s : ClientState} {x : Execution}

/-- An operation that is not in a lookup has nothing to lose but by the return of its call. -/
theorem loses_eq_false {event : Event} {goal : Goal} (hx : Steady x)
    (hstage : x.stage = .entering goal ∨ x.stage = .waiting goal ∨
      ∃ request, x.stage = .asking request goal) : loses x event = false := by
  have hplace : x.stage ≠ .finished ∧ x.stage ≠ .thrown ∧
      ∀ rest goal, x.stage ≠ .lookingUp rest goal := by
    rcases hstage with hstage | hstage | ⟨request, hstage⟩ <;> rw [hstage] <;>
      exact ⟨Stage.noConfusion, Stage.noConfusion, fun _ _ => Stage.noConfusion⟩
  obtain ⟨hfinished, hthrown, hlookingUp⟩ := hplace
  unfold loses
  split
  · split
    · rename_i rest goal hstage
      exact absurd hstage (hlookingUp rest goal)
    · rfl
  · rw [hx.answered.mpr hfinished, List.isEmpty_nil, Bool.not_true, Bool.false_or,
      decide_eq_false hthrown, Bool.and_false, Bool.and_false]
  · rfl

theorem isRunning_of_answered {y : Execution} {callbacks : List Result} {result : Result}
    (h : y.callbacks = callbacks ++ [result]) : isRunning y = false := by
  simp [isRunning, h]

/-- An operation with several parts removes its token when it gives up. -/
theorem removes_of_goal {goal : Goal}
    (hgoal : x.operation.removesOnAbort = false → ∃ own, goal = .request own)
    (hparts : ∀ own, goal ≠ .request own) : x.operation.removesOnAbort = true := by
  apply Bool.eq_true_of_not_eq_false
  intro hkeeps
  obtain ⟨own, hown⟩ := hgoal hkeeps
  exact hparts own hown

/-- What a chain of callbacks does to the list, if it loses nothing but by not removing a token. -/
theorem tokenEffect_of_outcome {services : List Service} {goal : Goal} {event : Event}
    {onCaller ownsMutex : Bool} {after : ClientState × Execution}
    (hgoal : x.operation.removesOnAbort = false → ∃ own, goal = .request own)
    (hkept : after.2.stage ≠ .finished ∨ x.operation.removesOnAbort = true →
      loses x event = false)
    (hlost : after.2.stage = .finished → x.operation.removesOnAbort = false →
      loses x event = isRunning x)
    (h : Outcome s { x with onCaller := onCaller, ownsMutex := ownsMutex } services goal after) :
    TokenEffect s x event after := by
  cases h with
  | aborted e =>
    cases hremoves : x.operation.removesOnAbort with
    | true =>
      exact .removed (if_pos hremoves) (isRunning_of_answered rfl) (hkept (Or.inr hremoves))
    | false =>
      exact .left (if_neg (Bool.eq_false_iff.mp hremoves)) (isRunning_of_answered rfl)
        (hlost rfl hremoves)
  | rejected p init ownsMutex _ hcatalog =>
    have hremoves : x.operation.removesOnAbort = true := by
      apply removes_of_goal hgoal
      rw [hcatalog]
      exact fun _ => Goal.noConfusion
    exact .removed rfl (isRunning_of_answered rfl) (hkept (Or.inr hremoves))
  | asked => exact .quiet rfl rfl (hkept (Or.inl Stage.noConfusion))
  | restarted => exact .quiet rfl rfl (hkept (Or.inl Stage.noConfusion))
  | lookingUp => exact .quiet rfl rfl (hkept (Or.inl Stage.noConfusion))

/-- The answer to a lookup loses a token iff the operation is running, keeps its token and gives
up. -/
theorem loses_lookedUp {rest : List Service} {goal : Goal}
    (apis : Except ApiError (List (List Char))) {inFrame : Bool}
    (hstage : x.stage = .lookingUp rest goal) (hcan : x.canAnswer inFrame = true)
    (hcallbacks : x.callbacks = []) :
    loses x (.lookedUp apis inFrame) = (!x.operation.removesOnAbort && isRunning x &&
      !(rest.isEmpty && inFrame && x.ownsMutex) && givesUp x.isCancelled apis) := by
  simp only [loses, hstage, hcan, Bool.true_and, isRunning, hcallbacks, List.isEmpty_nil,
    Bool.and_true]

theorem tokenEffect_of_lookedUp {apis : Except ApiError (List (List Char))} {inFrame : Bool}
    {rest : List Service} {goal : Goal} {after : ClientState × Execution}
    (hlookup : HasLookup s x) (hx : Steady x) (hstage : x.stage = .lookingUp rest goal)
    (hcan : x.canAnswer inFrame = true) (h : act s x (.lookedUp apis inFrame) = some after)
    (houtcome : Outcome s (x.answeredIn inFrame) rest goal after) :
    TokenEffect s x (.lookedUp apis inFrame) after := by
  have hcallbacks : x.callbacks = [] := hx.answered.mpr (by rw [hstage]; exact Stage.noConfusion)
  have hgoal : x.operation.removesOnAbort = false → ∃ own, goal = .request own := fun hkeeps =>
    (hx.keeps hkeeps).goal (Or.inl (Or.inr (Or.inr ⟨rest, hstage⟩)))
  have hloses := loses_lookedUp apis hstage hcan hcallbacks
  obtain ⟨onCaller, ownsMutex, hanswered⟩ := answeredIn_eq (x := x) inFrame
  rw [hanswered] at houtcome
  refine tokenEffect_of_outcome hgoal ?_ ?_ houtcome
  · intro hkept
    rw [hloses]
    cases hremoves : x.operation.removesOnAbort with
    | true => rfl
    | false =>
      have hstage' : after.2.stage ≠ .finished := by
        rcases hkept with hstage' | hremoves'
        · exact hstage'
        · rw [hremoves] at hremoves'
          cases hremoves'
      obtain ⟨own, rfl⟩ := hgoal hremoves
      rw [Ne, finished_iff_givesUp hlookup hstage h] at hstage'
      cases hbusy : rest.isEmpty && inFrame && x.ownsMutex with
      | true => rw [Bool.not_true, Bool.and_false, Bool.false_and]
      | false =>
        have hgives : givesUp x.isCancelled apis = false :=
          Bool.eq_false_iff.mpr fun hgives => hstage' ⟨hbusy, hgives⟩
        rw [hgives, Bool.and_false]
  · intro hfinished hremoves
    obtain ⟨own, rfl⟩ := hgoal hremoves
    obtain ⟨hfree, hgives⟩ := (finished_iff_givesUp hlookup hstage h).mp hfinished
    rw [hloses, hremoves, hfree, hgives]
    simp

/-- The call of an operation returns, or an exception leaves it. -/
theorem tokenEffect_of_returned (hx : Steady x) (hcan : x.canReturn = true) :
    TokenEffect s x .callReturns (callReturns s x) := by
  have hinCall : x.inCall = true := (Bool.and_eq_true _ _ ▸ hcan).1
  have hbefore : isRunning x = false := by rw [isRunning, hinCall, Bool.not_true, Bool.false_and]
  have hafter : isRunning (callReturns s x).2 = x.callbacks.isEmpty := by
    rw [callReturns_snd, isRunning, Bool.not_false, Bool.true_and]
  have hloses : loses x .callReturns =
      (!x.callbacks.isEmpty || x.onCaller && (x.stage = .thrown : Bool)) := by
    rw [loses, hcan, Bool.true_and]
  cases hescapes : x.onCaller && (x.stage = .thrown : Bool) with
  | true =>
    have hthrown : x.stage = .thrown := of_decide_eq_true (Bool.and_eq_true _ _ ▸ hescapes).2
    have hcallbacks : x.callbacks = [] := by
      refine hx.answered.mpr ?_
      rw [hthrown]
      exact Stage.noConfusion
    have htokens : (callReturns s x).1.tokenList = s.tokenList := by
      rw [callReturns, if_pos hescapes]
    refine .escaped htokens hbefore ?_ ?_
    · rw [hafter, hcallbacks, List.isEmpty_nil]
    · rw [hloses, hescapes, Bool.or_true]
  | false =>
    have htokens : (callReturns s x).1.tokenList = addTask x.id s.tokenList := by
      rw [callReturns, if_neg (Bool.eq_false_iff.mp hescapes)]
    refine .added htokens hbefore ?_
    rw [hloses, hescapes, Bool.or_false, hafter]

/-- A chain of callbacks that is cut off has not given up. -/
theorem loses_of_derails {event : Event} (h : derails s x event = true) :
    loses x event = false := by
  unfold derails at h
  split at h
  · rfl
  · rename_i apis inFrame
    split at h
    · rename_i rest goal hstage
      simp only [loses, hstage]
      rw [Bool.and_eq_true, Bool.or_eq_true] at h
      rcases h.2 with hempty | hlocks
      · rw [of_decide_eq_true hempty, givesUp_nil, Bool.and_false]
      · rw [hlocks, Bool.not_true, Bool.and_false, Bool.false_and]
    · cases h
  · cases h

theorem tokenEffect_of_act {event : Event} {after : ClientState × Execution}
    (hlookup : HasLookup s x) (hx : Steady x) (h : act s x event = some after) :
    TokenEffect s x event after := by
  have hasking : ∀ request goal, x.stage = .asking request goal → loses x event = false :=
    fun request goal hstage => loses_eq_false hx (Or.inr (Or.inr ⟨request, hstage⟩))
  cases acted_of_act hlookup h with
  | derailed _ stage init onCaller ownsMutex hstage _ hderails =>
    exact .quiet rfl rfl (loses_of_derails hderails)
  | waits goal hstage => exact .quiet rfl rfl rfl
  | entered _ goal _ hstage _ houtcome =>
    have hinitialises : Initialises goal x.stage := hstage.imp_right Or.inl
    have hkept : loses x event = false := loses_eq_false hx (hstage.imp_right Or.inl)
    refine tokenEffect_of_outcome (fun hkeeps => (hx.keeps hkeeps).goal (Or.inl hinitialises))
      (fun _ => hkept) (fun _ hremoves => ?_) houtcome
    have hinCall : x.inCall = true := by
      have hkeeps := hx.keeps hremoves
      rcases hstage with hstage | hstage <;> rw [hstage] at hkeeps <;> exact hkeeps.2.1
    rw [hkept, isRunning, hinCall, Bool.not_true, Bool.false_and]
  | lookedUp apis inFrame rest goal _ hstage hcan _ houtcome =>
    exact tokenEffect_of_lookedUp hlookup hx hstage hcan h houtcome
  | refused _ request goal e catalogModel tokenList onCaller ownsMutex succeeded hstage hgoal
      htokens =>
    have hremoves : x.operation.removesOnAbort = true := by
      apply removes_of_goal fun hkeeps => (hx.keeps hkeeps).goal (Or.inr ⟨request, hstage⟩)
      obtain ⟨p, hp, -⟩ | ⟨p, contentType, hp, -⟩ := hgoal
      · rw [hp]
        exact fun _ => Goal.noConfusion
      · rw [hp]
        exact fun _ => Goal.noConfusion
    exact .removed (htokens hremoves) (isRunning_of_answered rfl) (hasking request goal hstage)
  | gotCatalog _ request p contentType catalogModel onCaller ownsMutex hstage =>
    exact .quiet rfl rfl (hasking request _ hstage)
  | stored _ request p contentType onCaller ownsMutex hstage =>
    exact .quiet rfl rfl (hasking request _ hstage)
  | responded _ request goal response onCaller ownsMutex hstage =>
    exact .removed rfl (isRunning_of_answered rfl) (hasking request goal hstage)
  | cleared => exact .quiet rfl rfl rfl
  | cancelled => exact .quiet rfl rfl rfl
  | returned hcan => exact tokenEffect_of_returned hx hcan

/-- What loses a token can happen. -/
theorem act_ne_none_of_loses {event : Event} (h : loses x event = true) :
    act s x event ≠ none := by
  unfold loses at h
  split at h
  · split at h
    · rename_i rest goal hstage
      simp only [Bool.and_eq_true] at h
      simp only [act, hstage, if_pos h.1.1.1.1]
      exact Option.some_ne_none _
    · cases h
  · rw [Bool.and_eq_true] at h
    simp only [act, if_pos h.1]
    exact Option.some_ne_none _
  · cases h

theorem begin_id (id : ℕ) (call : Call) : (call.begin id).id = id := by
  unfold Call.begin
  dsimp only
  split <;> rfl

theorem isRunning_begin (id : ℕ) (call : Call) : isRunning (call.begin id) = false := by
  unfold Call.begin
  dsimp only
  split <;> rfl

end

/-! ## Runs -/

/-- What holds of a client in every state, whether or not tokens have been lost. -/
structure Orderly (s : System) : Prop where
  ids : ∀ (i : ℕ) (x : Execution), s.parties[i]? = some x → x.id = i
  sorted : s.shared.tokenList.Pairwise (· ≤ ·)
  steady : ∀ x ∈ s.parties, HasLookup s.shared x ∧ Steady x

/-- An event of an operation loses no token. -/
def KeepsTrack (s : System) : Action Call Event → Prop
  | .join _ => True
  | .act i event => ∀ x, s.parties[i]? = some x → loses x event = false

section

variable {s s' : System} {action : Action Call Event}

theorem TokenEffect.sorted {s : ClientState} {x : Execution} {event : Event}
    {after : ClientState × Execution} (h : TokenEffect s x event after)
    (hsorted : s.tokenList.Pairwise (· ≤ ·)) : after.1.tokenList.Pairwise (· ≤ ·) := by
  cases h with
  | quiet htokens => exact htokens ▸ hsorted
  | removed htokens =>
    rw [htokens, removeTask_eq_erase hsorted]
    exact hsorted.sublist List.erase_sublist
  | left htokens => exact htokens ▸ hsorted
  | added htokens => exact htokens ▸ addTask_sorted hsorted
  | escaped htokens => exact htokens ▸ hsorted

theorem TokenEffect.count_ne {s : ClientState} {x : Execution} {event : Event}
    {after : ClientState × Execution} (h : TokenEffect s x event after)
    (hsorted : s.tokenList.Pairwise (· ≤ ·)) {id : ℕ} (hid : id ≠ x.id) :
    after.1.tokenList.count id = s.tokenList.count id := by
  cases h with
  | quiet htokens => rw [htokens]
  | removed htokens => rw [htokens, removeTask_eq_erase hsorted, List.count_erase_of_ne hid]
  | left htokens => rw [htokens]
  | added htokens => rw [htokens, addTask_perm.count_eq, List.count_cons_of_ne hid.symm]
  | escaped htokens => rw [htokens]

/-- The entries of the operation that acts are as they should be iff nothing is lost. -/
theorem TokenEffect.count_iff {s : ClientState} {x : Execution} {event : Event}
    {after : ClientState × Execution} (h : TokenEffect s x event after)
    (hsorted : s.tokenList.Pairwise (· ≤ ·))
    (hcount : s.tokenList.count x.id = if isRunning x then 1 else 0) :
    (after.1.tokenList.count x.id = if isRunning after.2 then 1 else 0) ↔
      loses x event = false := by
  cases h with
  | quiet htokens hrunning hkept =>
    rw [htokens, hrunning, hkept]
    exact iff_of_true hcount rfl
  | removed htokens hover hkept =>
    rw [htokens, removeTask_eq_erase hsorted, List.count_erase_self, hcount, hover, hkept]
    cases isRunning x <;> exact iff_of_true rfl rfl
  | left htokens hover hlost =>
    rw [htokens, hcount, hover, hlost]
    cases isRunning x with
    | true => exact iff_of_false Nat.one_ne_zero Bool.noConfusion
    | false => exact iff_of_true rfl rfl
  | added htokens hbefore hlost =>
    rw [htokens, addTask_perm.count_eq, List.count_cons_self, hcount, hbefore, hlost]
    cases isRunning after.2 with
    | true => exact iff_of_true rfl rfl
    | false => exact iff_of_false Nat.one_ne_zero Bool.noConfusion
  | escaped htokens hbefore hafter hlost =>
    rw [htokens, hcount, hbefore, hafter, hlost]
    exact iff_of_false Nat.zero_ne_one Bool.noConfusion

theorem orderly_step (hs : Orderly s) (hstep : step s action = some s') : Orderly s' := by
  have hsteady : ∀ x ∈ s'.parties, HasLookup s'.shared x ∧ Steady x :=
    forall_operation_step steady_begin (fun _ _ _ _ hx hacted => steady_of_acted hx hacted)
      hs.steady hstep
  cases action with
  | join call =>
    cases hstep
    refine ⟨fun i x hi => ?_, hs.sorted, hsteady⟩
    rw [getElem?_concat] at hi
    split at hi
    · rename_i hnew
      cases hi
      exact (begin_id _ call).trans hnew.symm
    · exact hs.ids i x hi
  | act i event =>
    obtain ⟨x, shared, x', hi, hact, rfl⟩ := Parties.step_act hstep
    obtain ⟨hlookup, hx⟩ := hs.steady x (List.mem_of_getElem? hi)
    have hid : x'.id = x.id := (sameOperation_of_acted (acted_of_act hlookup hact)).id
    refine ⟨fun j y hj => ?_, (tokenEffect_of_act hlookup hx hact).sorted hs.sorted, hsteady⟩
    rw [getElem?_set_of_some hi] at hj
    split at hj
    · rename_i hji
      cases hj
      exact (hid.trans (hs.ids i x hi)).trans hji.symm
    · exact hs.ids j y hj

/-- Only the token and the state of the operation that acts have to be looked at. -/
theorem tracked_set_iff {i : ℕ} {x x' : Execution} {shared : ClientState}
    (htracked : Tracked s) (hi : s.parties[i]? = some x)
    (hothers : ∀ j, j ≠ i → shared.tokenList.count j = s.shared.tokenList.count j) :
    Tracked ⟨shared, s.parties.set i x'⟩ ↔
      shared.tokenList.count i = if isRunning x' then 1 else 0 := by
  have hplace := getElem?_set_of_some hi x'
  constructor
  · intro h
    have hcount := h i
    rwa [hplace, if_pos rfl] at hcount
  · intro hcount id
    rw [hplace]
    split
    · rename_i hid
      rwa [hid]
    · rename_i hid
      rw [hothers id hid]
      exact htracked id

theorem tracked_step (hs : Orderly s) (htracked : Tracked s) (hstep : step s action = some s') :
    Tracked s' ↔ KeepsTrack s action := by
  cases action with
  | join call =>
    cases hstep
    refine iff_of_true (fun id => (htracked id).trans ?_) trivial
    rw [getElem?_concat]
    by_cases hid : id = s.parties.length
    · rw [if_pos hid, hid, List.getElem?_eq_none (Nat.le_refl _), Option.any_some,
        isRunning_begin]
      rfl
    · rw [if_neg hid]
  | act i event =>
    obtain ⟨x, shared, x', hi, hact, rfl⟩ := Parties.step_act hstep
    obtain ⟨hlookup, hx⟩ := hs.steady x (List.mem_of_getElem? hi)
    have heffect := tokenEffect_of_act hlookup hx hact
    have hid : x.id = i := hs.ids i x hi
    have hkeeps : KeepsTrack s (.act i event) ↔ loses x event = false := by
      constructor
      · exact fun h => h x hi
      · intro h y hy
        rw [hi] at hy
        cases hy
        exact h
    have hcount : s.shared.tokenList.count i = if isRunning x then 1 else 0 := by
      have := htracked i
      rwa [hi] at this
    subst hid
    rw [hkeeps, tracked_set_iff htracked hi fun j hj => heffect.count_ne hs.sorted hj]
    exact heffect.count_iff hs.sorted hcount

theorem keepsTrack_of_eq_none (h : step s action = none) : KeepsTrack s action := by
  cases action with
  | join call => cases h
  | act i event =>
    intro x hi
    have hact : act s.shared x event = none := Parties.act_eq_none_of_step h hi
    exact Bool.eq_false_iff.mpr fun hloses => act_ne_none_of_loses hloses hact

end

/-- **The list of tokens tracks the operations** in every state of a run of a client, if and only
if no event loses a token: no call returns after its callback has been called, or by an
exception, and `CheckDataExists` does not give up at the answer to a lookup, for an error or a
cancellation, after its call has returned.
SOURCE: VersionedLayerClientImpl.cpp:169-579, 751-806, CancellationTokenList.cpp:42-56 -/
theorem tokens_tracked_iff (lookupUrl : List Char) (actions : List (Action Call Event)) :
    (∀ before, before <+: actions → ∀ s,
        runFrom step (initial lookupUrl) before = some s → Tracked s) ↔
      Along step KeepsTrack (initial lookupUrl) actions := by
  refine forall_before_iff_along Orderly Tracked (fun _ _ _ => orderly_step)
    (fun _ _ _ => tracked_step) (fun _ _ _ => keepsTrack_of_eq_none) ?_ ?_ actions
  · refine ⟨fun i x hi => ?_, List.Pairwise.nil, fun x hx => ?_⟩
    · cases hi
    · cases hx
  · intro id
    rfl

/-- The first lookup of `CheckDataExists` fails after its call has returned. -/
theorem failed_check_keeps_token :
    let actions : List (Action Call Event) := [.join ⟨.checkDataExists ['l'] ['h'], [], false⟩,
      .act 0 (.enter true), .act 0 .callReturns,
      .act 0 (.lookedUp (.error (.ofCode .unknown [])) false)]
    ∃ s, runFrom step (initial ['a']) actions = some s ∧
      (∀ x ∈ s.parties, x.inCall = false ∧ x.callbacks.length = 1) ∧
      s.shared.tokenList = [0] ∧ ¬ Tracked s := by
  intro actions
  refine ⟨_, rfl, fun x hx => ?_, rfl, fun htracked => ?_⟩
  · rw [List.mem_singleton.mp hx]
    exact ⟨rfl, rfl⟩
  · have hcount := htracked 0
    cases hcount

end OlpEdgeSdk.Analysis.VersionedLayerClient

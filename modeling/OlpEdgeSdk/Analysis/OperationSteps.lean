import OlpEdgeSdk.Model.VersionedLayerClient

/-!
# What a step of an operation does

One answer runs a chain of callbacks, which ends where the operation waits again or is over.
`Outcome` lists the ends that a chain in `InitApiClients` can have, unless an exception or a
lock of its own mutex cuts it off, and `Derails` says when that happens. `acted_of_act` puts the
two together: every later result about operations is a case analysis over `Acted`.
-/

set_option autoImplicit false

namespace OlpEdgeSdk.Analysis.VersionedLayerClient

open OlpEdgeSdk.Base OlpEdgeSdk.Model OlpEdgeSdk.Model.VersionedLayerClient
open OlpEdgeSdk.Model.LayerClientInit (Service InitState versionedLayerServices)

/-- The sub-request that is made when the initialisation for a goal is done. -/
def Asks (request : SubRequest) : Goal → Prop
  | .request own => request = own
  | .catalog _ => request = .getCatalog
  | .blob p contentType => request = .putBlob p.layerId contentType p.dataHandle p.data
  | .partition p =>
    request = .uploadPartitions p.publicationId p.layerId p.partition p.dataHandle

/-- How a chain of callbacks can end that is under way for a goal and has some services to look
up: the operation gives up; its layer is not in the catalog; it makes its sub-request; it goes on
to the blob; or it looks up the next service. -/
inductive Outcome (s : ClientState) (x : Execution) (services : List Service) (goal : Goal) :
    ClientState × Execution → Prop where
  | aborted (e : ApiError) (init : InitState) (ownsMutex mustClear : Bool)
      (hurl : init.lookupUrl = s.init.lookupUrl) :
      Outcome s x services goal
        ({ s with
            init := init
            tokenList :=
              if x.operation.removesOnAbort then removeTask x.id s.tokenList else s.tokenList },
          { x with
            stage := .finished, callbacks := x.callbacks ++ [.error e]
            ownsMutex := ownsMutex, mustClear := mustClear })
  | rejected (p : Publishing) (init : InitState) (ownsMutex : Bool)
      (hurl : init.lookupUrl = s.init.lookupUrl) (hgoal : goal = .catalog p) :
      Outcome s x services goal
        ({ s with init := init, tokenList := removeTask x.id s.tokenList },
          { x with
            stage := .finished, ownsMutex := ownsMutex
            callbacks := x.callbacks ++ [.error (layerNotFound p.layerId)] })
  | asked (request : SubRequest) (init : InitState) (ownsMutex : Bool)
      (hurl : init.lookupUrl = s.init.lookupUrl) (hasks : Asks request goal) :
      Outcome s x services goal
        ({ s with init := init },
          { x with
            stage := .asking request goal, asked := x.asked ++ [request]
            ownsMutex := ownsMutex })
  | restarted (p : Publishing) (contentType : List Char) (init : InitState) (ownsMutex : Bool)
      (hurl : init.lookupUrl = s.init.lookupUrl) (hgoal : goal = .catalog p) :
      Outcome s x services goal
        ({ s with init := init },
          { x with stage := .entering (.blob p contentType), ownsMutex := ownsMutex })
  | lookingUp (service : Service) (rest : List Service) (init : InitState) (ownsMutex : Bool)
      (hurl : init.lookupUrl = s.init.lookupUrl) (hset : s.init.lookupUrl ≠ [])
      (hservices : services = service :: rest) :
      Outcome s x services goal
        ({ s with init := init },
          { x with
            stage := .lookingUp rest goal, asked := x.asked ++ [.lookup service]
            ownsMutex := ownsMutex })

section

variable {s : ClientState} {x : Execution} {services : List Service} {goal : Goal}

theorem outcome_abort (e : ApiError) (init : InitState) (ownsMutex mustClear : Bool)
    (hurl : init.lookupUrl = s.init.lookupUrl) :
    Outcome s x services goal (abort { s with init := init }
      { x with ownsMutex := ownsMutex, mustClear := mustClear } e) := by
  have haborted : Outcome s x services goal _ := .aborted e init ownsMutex mustClear hurl
  unfold abort finish reply
  have hoperation : ({ x with ownsMutex := ownsMutex, mustClear := mustClear } :
      Execution).operation = x.operation := rfl
  rw [hoperation]
  split
  · rename_i hremoves
    rwa [if_pos hremoves] at haborted
  · rename_i hremoves
    rwa [if_neg hremoves] at haborted

theorem outcome_executeOrCancelled {init : InitState} {ownsMutex : Bool}
    (hurl : init.lookupUrl = s.init.lookupUrl) {body : ClientState × Execution}
    (hbody : Outcome s x services goal body) :
    Outcome s x services goal (executeOrCancelled { s with init := init }
      { x with ownsMutex := ownsMutex } body) := by
  unfold executeOrCancelled
  split
  · exact outcome_abort _ init ownsMutex x.mustClear hurl
  · exact hbody

theorem outcome_initCallback (init : InitState) (ownsMutex : Bool)
    (hurl : init.lookupUrl = s.init.lookupUrl) (err : Option ApiError) :
    Outcome s x services goal (initCallback { s with init := init }
      { x with ownsMutex := ownsMutex } goal err) := by
  cases err with
  | some e => exact outcome_abort e init ownsMutex x.mustClear hurl
  | none =>
    have hasked : ∀ request, Asks request goal → Outcome s x services goal
        (executeOrCancelled { s with init := init } { x with ownsMutex := ownsMutex }
          (ask { s with init := init } { x with ownsMutex := ownsMutex } request goal)) :=
      fun request hasks =>
        outcome_executeOrCancelled hurl (.asked request init ownsMutex hurl hasks)
    cases goal with
    | request own => exact hasked own rfl
    | blob p contentType => exact hasked _ rfl
    | partition p => exact hasked _ rfl
    | catalog p =>
      unfold initCallback
      dsimp only
      split
      · unfold uploadBlob
        dsimp only
        split
        · exact .rejected p init ownsMutex hurl rfl
        · exact outcome_executeOrCancelled hurl (.restarted p _ init ownsMutex hurl rfl)
      · exact hasked _ rfl

/-- The last lookup gets through, if there is an answer and the mutex is free. -/
theorem outcome_publishApiCallback {apis : Except ApiError (List (List Char))}
    (howns : x.ownsMutex = false) (hsome : apis ≠ .ok []) :
    Outcome s x services goal (publishApiCallback s x goal apis) := by
  unfold publishApiCallback
  rw [howns]
  cases apis with
  | error e => exact outcome_initCallback { s.init with initInProgress := false } true rfl (some e)
  | ok urls =>
    cases urls with
    | nil => exact absurd rfl hsome
    | cons url urls =>
      exact outcome_initCallback
        { s.init with initInProgress := false, apiclientPublish := some url } true rfl none

/-- A lookup that is not the last one begins, or has no url to ask. -/
theorem outcome_lookupApi (init : InitState) (ownsMutex : Bool)
    (hurl : init.lookupUrl = s.init.lookupUrl)
    (hlast : s.init.lookupUrl ≠ [] ∨ 1 < services.length) :
    Outcome s x services goal (lookupApi { s with init := init }
      { x with ownsMutex := ownsMutex } goal services) := by
  cases services with
  | nil => exact outcome_initCallback init ownsMutex hurl none
  | cons service rest =>
    unfold lookupApi
    dsimp only
    split
    · rename_i hempty
      have hrest : rest ≠ [] := by
        rintro rfl
        rcases hlast with hset | hlength
        · exact hset (hurl ▸ hempty)
        · simp at hlength
      rw [if_neg hrest]
      exact outcome_abort invalidHrn init ownsMutex true hurl
    · rename_i hset
      exact .lookingUp service rest _ ownsMutex hurl (hurl ▸ hset) rfl

theorem outcome_serviceCallback {apis : Except ApiError (List (List Char))}
    (hsome : apis ≠ .ok []) (hset : s.init.lookupUrl ≠ []) :
    Outcome s x services goal (serviceCallback s x goal services apis) := by
  cases apis with
  | error e => exact outcome_abort e s.init x.ownsMutex true rfl
  | ok urls =>
    cases urls with
    | nil => exact absurd rfl hsome
    | cons url urls =>
      have hlookup : Outcome s x services goal (lookupApi s x goal services) :=
        outcome_lookupApi s.init x.ownsMutex rfl (Or.inl hset)
      have hbody : Outcome s x services goal
          (executeOrCancelled s x (lookupApi s x goal services)) :=
        outcome_executeOrCancelled rfl hlookup
      exact hbody

theorem outcome_tested (ownsMutex : Bool) :
    Outcome s x versionedLayerServices goal
      (tested s { x with ownsMutex := ownsMutex } goal) := by
  unfold tested
  split
  · exact outcome_initCallback s.init ownsMutex rfl none
  · exact outcome_lookupApi { s.init with initInProgress := true, apiclientPublish := some [] }
      ownsMutex rfl (Or.inr (by decide))

end

/-! ## One step -/

/-- A chain of callbacks is cut off: the test of the flag finds it set without having the mutex,
the list of services is empty, or the last lookup answers on a thread that owns the mutex. -/
def derails (s : ClientState) (x : Execution) : Event → Bool
  | .enter locked =>
    match x.stage with
    | .entering _ => !locked && s.init.initInProgress
    | _ => false
  | .lookedUp apis inFrame =>
    match x.stage with
    | .lookingUp rest _ =>
      x.canAnswer inFrame && (apis = .ok [] || rest.isEmpty && inFrame && x.ownsMutex)
    | _ => false
  | _ => false

/-- What a step of an operation does. Where the operation goes on in its own way is left to
`Outcome`; `onCaller` and `ownsMutex` are what an answer makes of them. -/
inductive Acted (s : ClientState) (x : Execution) : Event → ClientState × Execution → Prop where
  | derailed (event : Event) (stage : Stage) (init : InitState) (onCaller ownsMutex : Bool)
      (hstage : stage = .thrown ∨ stage = .hanging) (hurl : init.lookupUrl = s.init.lookupUrl)
      (hderails : derails s x event = true) :
      Acted s x event ({ s with init := init },
        { x with stage := stage, onCaller := onCaller, ownsMutex := ownsMutex })
  | waits (goal : Goal) (hstage : x.stage = .entering goal) :
      Acted s x (.enter true) (s, { x with stage := .waiting goal })
  | entered (event : Event) (goal : Goal) (after : ClientState × Execution)
      (hstage : x.stage = .entering goal ∨ x.stage = .waiting goal)
      (hkept : derails s x event = false)
      (houtcome : Outcome s x versionedLayerServices goal after) : Acted s x event after
  | lookedUp (apis : Except ApiError (List (List Char))) (inFrame : Bool) (rest : List Service)
      (goal : Goal) (after : ClientState × Execution) (hstage : x.stage = .lookingUp rest goal)
      (hcan : x.canAnswer inFrame = true) (hkept : derails s x (.lookedUp apis inFrame) = false)
      (houtcome : Outcome s (x.answeredIn inFrame) rest goal after) :
      Acted s x (.lookedUp apis inFrame) after
  | refused (event : Event) (request : SubRequest) (goal : Goal) (e : ApiError)
      (catalogModel : VersionedLayerClient.Catalog) (tokenList : List ℕ) (onCaller ownsMutex : Bool)
      (succeeded : List SubRequest) (hstage : x.stage = .asking request goal)
      (hgoal : (∃ p, goal = .catalog p ∧ succeeded = x.succeeded) ∨
        ∃ p contentType, goal = .blob p contentType ∧
          (succeeded = x.succeeded ∨ succeeded = x.succeeded ++ [request]))
      (htokens : x.operation.removesOnAbort = true → tokenList = removeTask x.id s.tokenList)
      (hkept : derails s x event = false) :
      Acted s x event ({ s with catalogModel := catalogModel, tokenList := tokenList },
        { x with
          stage := .finished, onCaller := onCaller, ownsMutex := ownsMutex
          callbacks := x.callbacks ++ [.error e], succeeded := succeeded })
  | gotCatalog (event : Event) (request : SubRequest) (p : Publishing) (contentType : List Char)
      (catalogModel : VersionedLayerClient.Catalog) (onCaller ownsMutex : Bool)
      (hstage : x.stage = .asking request (.catalog p)) (hkept : derails s x event = false) :
      Acted s x event ({ s with catalogModel := catalogModel },
        { x with
          stage := .entering (.blob p contentType), onCaller := onCaller
          ownsMutex := ownsMutex })
  | stored (event : Event) (request : SubRequest) (p : Publishing) (contentType : List Char)
      (onCaller ownsMutex : Bool) (hstage : x.stage = .asking request (.blob p contentType))
      (hkept : derails s x event = false) :
      Acted s x event (s,
        { x with
          stage := .entering (.partition p), onCaller := onCaller, ownsMutex := ownsMutex
          succeeded := x.succeeded ++ [request] })
  | responded (event : Event) (request : SubRequest) (goal : Goal) (response : Result)
      (onCaller ownsMutex : Bool) (hstage : x.stage = .asking request goal)
      (hgoal : (∃ own, goal = .request own) ∨ ∃ p, goal = .partition p)
      (hkept : derails s x event = false) :
      Acted s x event ({ s with tokenList := removeTask x.id s.tokenList },
        { x with
          stage := .finished, onCaller := onCaller, ownsMutex := ownsMutex
          callbacks := x.callbacks ++ [x.operation.respond response]
          succeeded := if response.isOk then x.succeeded ++ [request] else x.succeeded })
  | cleared :
      Acted s x .clear ({ s with init.initInProgress := false }, { x with mustClear := false })
  | returned (hcan : x.canReturn = true) : Acted s x .callReturns (callReturns s x)
  | cancelled (hreturned : x.inCall = false) :
      Acted s x .cancelOperation (s, { x with isCancelled := true })

section

variable {s : ClientState} {x : Execution}

/-- Once an operation looks something up, the partition has a lookup service. -/
def HasLookup (s : ClientState) (x : Execution) : Prop :=
  ∀ rest goal, x.stage = .lookingUp rest goal → s.init.lookupUrl ≠ []

/-- An operation is in `InitApiClients` for a goal. -/
def Initialises (goal : Goal) (stage : Stage) : Prop :=
  stage = .entering goal ∨ stage = .waiting goal ∨ ∃ rest, stage = .lookingUp rest goal

theorem initialises_of_derails {event : Event} (h : derails s x event = true) :
    ∃ goal, Initialises goal x.stage := by
  unfold derails at h
  split at h
  · split at h
    · rename_i goal hstage
      exact ⟨goal, Or.inl hstage⟩
    · cases h
  · split at h
    · rename_i rest goal hstage
      exact ⟨goal, Or.inr (Or.inr ⟨rest, hstage⟩)⟩
    · cases h
  · cases h

theorem acted_of_enter {locked : Bool} {after : ClientState × Execution}
    (h : act s x (.enter locked) = some after) : Acted s x (.enter locked) after := by
  simp only [act] at h
  split at h
  · rename_i goal hstage
    split at h
    · cases h
    · cases h
      unfold enter
      split
      · rename_i hflag
        cases locked with
        | true => exact .waits goal hstage
        | false =>
          refine .derailed _ .thrown s.init x.onCaller x.ownsMutex (Or.inl rfl) rfl ?_
          simp only [derails, hstage, hflag]
          rfl
      · rename_i hflag
        refine .entered _ goal _ (Or.inl hstage) ?_ (outcome_tested (locked || x.ownsMutex))
        simp only [derails, hstage, Bool.eq_false_iff.mpr hflag, Bool.and_false]
  · cases h

theorem acted_of_wake {after : ClientState × Execution} (h : act s x .wake = some after) :
    Acted s x .wake after := by
  simp only [act] at h
  split at h
  · rename_i goal hstage
    split at h
    · cases h
    · cases h
      exact .entered _ goal _ (Or.inr hstage) rfl (outcome_tested true)
  · cases h

theorem answeredIn_ownsMutex (inFrame : Bool) :
    (x.answeredIn inFrame).ownsMutex = (inFrame && x.ownsMutex) := by
  cases inFrame <;> rfl

/-- An exception or a deadlock leaves the operation as the answer has found it. -/
theorem acted_of_derails {event : Event} (inFrame : Bool) (stage : Stage) (init : InitState)
    (ownsMutex : Bool) (hstage : stage = .thrown ∨ stage = .hanging)
    (hurl : init.lookupUrl = s.init.lookupUrl) (hderails : derails s x event = true) :
    Acted s x event ({ s with init := init },
      { x.answeredIn inFrame with stage := stage, ownsMutex := ownsMutex }) := by
  cases inFrame with
  | true => exact .derailed event stage init x.onCaller ownsMutex hstage hurl hderails
  | false => exact .derailed event stage init false ownsMutex hstage hurl hderails

theorem acted_of_lookedUp {apis : Except ApiError (List (List Char))} {inFrame : Bool}
    {after : ClientState × Execution} (hlookup : HasLookup s x)
    (h : act s x (.lookedUp apis inFrame) = some after) :
    Acted s x (.lookedUp apis inFrame) after := by
  simp only [act] at h
  split at h
  · rename_i rest goal hstage
    split at h
    · rename_i hcan
      cases h
      have hderails : derails s x (.lookedUp apis inFrame) =
          (decide (apis = .ok []) || rest.isEmpty && (x.answeredIn inFrame).ownsMutex) := by
        simp only [derails, hstage, hcan, Bool.true_and, answeredIn_ownsMutex, Bool.and_assoc]
      cases rest with
      | nil =>
        rw [if_pos rfl]
        cases howns : (x.answeredIn inFrame).ownsMutex with
        | true =>
          rw [howns, List.isEmpty_nil, Bool.and_true, Bool.or_true] at hderails
          have hhangs : publishApiCallback s (x.answeredIn inFrame) goal apis =
              (s, { x.answeredIn inFrame with stage := .hanging }) := if_pos howns
          rw [hhangs]
          exact acted_of_derails inFrame .hanging s.init _ (Or.inr rfl) rfl hderails
        | false =>
          rw [howns, Bool.and_false, Bool.or_false] at hderails
          by_cases hempty : apis = .ok []
          · subst hempty
            have hthrows : publishApiCallback s (x.answeredIn inFrame) goal (.ok []) =
                ({ s with init.initInProgress := false },
                  { x.answeredIn inFrame with ownsMutex := true, stage := .thrown }) :=
              if_neg (Bool.eq_false_iff.mp howns)
            rw [hthrows]
            exact acted_of_derails inFrame .thrown _ true (Or.inl rfl) rfl hderails
          · rw [decide_eq_false hempty] at hderails
            exact .lookedUp apis inFrame [] goal _ hstage hcan hderails
              (outcome_publishApiCallback howns hempty)
      | cons service rest =>
        rw [if_neg (List.cons_ne_nil service rest)]
        rw [List.isEmpty_cons, Bool.false_and, Bool.or_false] at hderails
        by_cases hempty : apis = .ok []
        · subst hempty
          exact acted_of_derails inFrame .thrown s.init _ (Or.inl rfl) rfl hderails
        · rw [decide_eq_false hempty] at hderails
          exact .lookedUp apis inFrame _ goal _ hstage hcan hderails
            (outcome_serviceCallback hempty (hlookup _ goal hstage))
    · cases h
  · cases h

theorem answeredIn_eq (inFrame : Bool) :
    ∃ onCaller ownsMutex,
      x.answeredIn inFrame = { x with onCaller := onCaller, ownsMutex := ownsMutex } := by
  cases inFrame with
  | true => exact ⟨x.onCaller, x.ownsMutex, rfl⟩
  | false => exact ⟨false, false, rfl⟩

/-- An operation gives up after the answer to one of the sub-requests before the last. -/
theorem acted_of_abort {event : Event} {request : SubRequest} {goal : Goal} (e : ApiError)
    (catalogModel : VersionedLayerClient.Catalog) (onCaller ownsMutex : Bool)
    (succeeded : List SubRequest) (hstage : x.stage = .asking request goal)
    (hgoal : (∃ p, goal = .catalog p ∧ succeeded = x.succeeded) ∨
      ∃ p contentType, goal = .blob p contentType ∧
        (succeeded = x.succeeded ∨ succeeded = x.succeeded ++ [request]))
    (hkept : derails s x event = false) :
    Acted s x event (abort { s with catalogModel := catalogModel }
      { x with onCaller := onCaller, ownsMutex := ownsMutex, succeeded := succeeded } e) := by
  have hoperation : ({ x with
      onCaller := onCaller, ownsMutex := ownsMutex
      succeeded := succeeded } : Execution).operation = x.operation := rfl
  unfold abort
  rw [hoperation]
  split
  · exact .refused event request goal e catalogModel _ onCaller ownsMutex succeeded hstage hgoal
      (fun _ => rfl) hkept
  · rename_i hkeeps
    exact .refused event request goal e catalogModel s.tokenList onCaller ownsMutex succeeded
      hstage hgoal (fun hremoves => absurd hremoves hkeeps) hkept

theorem acted_of_gotCatalog {response : Except ApiError VersionedLayerClient.Catalog}
    {inFrame : Bool} {after : ClientState × Execution}
    (h : act s x (.gotCatalog response inFrame) = some after) :
    Acted s x (.gotCatalog response inFrame) after := by
  simp only [act] at h
  split at h
  · rename_i request p hstage
    split at h
    · cases h
      obtain ⟨onCaller, ownsMutex, hanswered⟩ := answeredIn_eq (x := x) inFrame
      rw [hanswered]
      have hgoal : ∃ p', Goal.catalog p = .catalog p' ∧ x.succeeded = x.succeeded :=
        ⟨p, rfl, rfl⟩
      cases response with
      | error e =>
        exact .refused _ request _ e s.catalogModel _ onCaller ownsMutex x.succeeded hstage
          (Or.inl hgoal) (fun _ => rfl) rfl
      | ok catalog =>
        unfold initCatalogCallback uploadBlob
        dsimp only
        split
        · exact .refused _ request _ _ catalog _ onCaller ownsMutex x.succeeded hstage
            (Or.inl hgoal) (fun _ => rfl) rfl
        · unfold executeOrCancelled
          split
          · exact acted_of_abort _ catalog onCaller ownsMutex x.succeeded hstage (Or.inl hgoal) rfl
          · exact .gotCatalog _ request p _ catalog onCaller ownsMutex hstage rfl
    · cases h
  · cases h

theorem acted_of_answered {response : Result} {inFrame : Bool} {after : ClientState × Execution}
    (h : act s x (.answered response inFrame) = some after) :
    Acted s x (.answered response inFrame) after := by
  simp only [act] at h
  split at h
  · cases h
  · rename_i request goal hcatalog hstage
    split at h
    · cases h
      obtain ⟨onCaller, ownsMutex, hanswered⟩ := answeredIn_eq (x := x) inFrame
      rw [hanswered]
      cases goal with
      | catalog p => exact (hcatalog p rfl).elim
      | request own =>
        exact .responded _ request _ response onCaller ownsMutex hstage (Or.inl ⟨own, rfl⟩) rfl
      | partition p =>
        exact .responded _ request _ response onCaller ownsMutex hstage (Or.inr ⟨p, rfl⟩) rfl
      | blob p contentType =>
        cases response with
        | error e =>
          exact .refused _ request _ e s.catalogModel _ onCaller ownsMutex x.succeeded hstage
            (Or.inr ⟨p, contentType, rfl, Or.inl rfl⟩) (fun _ => rfl) rfl
        | ok value =>
          rw [if_pos (show (Except.ok value : Result).isOk = true from rfl)]
          dsimp only [answered, uploadPartition]
          unfold executeOrCancelled
          split
          · exact acted_of_abort _ s.catalogModel onCaller ownsMutex _ hstage
              (Or.inr ⟨p, contentType, rfl, Or.inr rfl⟩) rfl
          · exact .stored (.answered (.ok value) inFrame) request p contentType onCaller ownsMutex
              hstage rfl
    · cases h
  · cases h

/-- **A step of an operation** does one of the things that `Acted` lists. -/
theorem acted_of_act {event : Event} {after : ClientState × Execution} (hlookup : HasLookup s x)
    (h : act s x event = some after) : Acted s x event after := by
  cases event with
  | enter locked => exact acted_of_enter h
  | wake => exact acted_of_wake h
  | lookedUp apis inFrame => exact acted_of_lookedUp hlookup h
  | gotCatalog response inFrame => exact acted_of_gotCatalog h
  | answered response inFrame => exact acted_of_answered h
  | clear =>
    simp only [act] at h
    split at h
    · cases h
      exact .cleared
    · cases h
  | callReturns =>
    simp only [act] at h
    split at h
    · rename_i hcan
      cases h
      exact .returned hcan
    · cases h
  | cancelOperation =>
    simp only [act] at h
    split at h
    · cases h
    · rename_i hreturned
      cases h
      exact .cancelled (Bool.eq_false_iff.mpr hreturned)

@[simp] theorem callReturns_snd : (callReturns s x).2 = { x with inCall := false } := by
  unfold callReturns
  split <;> rfl

@[simp] theorem callReturns_init : (callReturns s x).1.init = s.init := by
  unfold callReturns
  split <;> rfl

/-- What is cut off can happen. -/
theorem act_ne_none_of_derails {event : Event} (h : derails s x event = true) :
    act s x event ≠ none := by
  unfold derails at h
  split at h
  · rename_i locked
    split at h
    · rename_i goal hstage
      cases locked with
      | true => cases h
      | false =>
        simp only [act, hstage, Bool.false_and]
        exact Option.some_ne_none _
    · cases h
  · split at h
    · rename_i rest goal hstage
      rw [Bool.and_eq_true] at h
      simp only [act, hstage, if_pos h.1]
      exact Option.some_ne_none _
    · cases h
  · cases h

/-- A chain of callbacks of an operation has been cut off. -/
def IsCutOff (x : Execution) : Prop := x.stage = .thrown ∨ x.stage = .hanging

theorem not_isCutOff_begin (id : ℕ) (call : Call) : ¬ IsCutOff (call.begin id) := by
  unfold Call.begin
  dsimp only
  split
  · rintro (hcut | hcut) <;> cases hcut
  · rintro (hcut | hcut) <;> cases hcut

theorem not_isCutOff_of_outcome {services : List Service} {goal : Goal}
    {after : ClientState × Execution} (h : Outcome s x services goal after) :
    ¬ IsCutOff after.2 := by
  rintro (hthrown | hhanging)
  · cases h <;> cases hthrown
  · cases h <;> cases hhanging

/-- **An operation is cut off** exactly by what derails it. -/
theorem isCutOff_of_acted {event : Event} {after : ClientState × Execution} (hx : ¬ IsCutOff x)
    (h : Acted s x event after) : IsCutOff after.2 ↔ derails s x event = true := by
  have hgoesOn : ∀ stage : Stage, stage ≠ .thrown → stage ≠ .hanging → after.2.stage = stage →
      derails s x event = false → (IsCutOff after.2 ↔ derails s x event = true) := by
    intro stage hthrown hhanging hstage hkept
    refine iff_of_false ?_ (Bool.eq_false_iff.mp hkept)
    rintro (hcut | hcut)
    · exact hthrown (hstage.symm.trans hcut)
    · exact hhanging (hstage.symm.trans hcut)
  cases h with
  | derailed _ stage init onCaller ownsMutex hstage _ hderails => exact iff_of_true hstage hderails
  | entered _ goal _ _ hkept houtcome =>
    exact iff_of_false (not_isCutOff_of_outcome houtcome) (Bool.eq_false_iff.mp hkept)
  | lookedUp apis inFrame rest goal _ _ _ hkept houtcome =>
    exact iff_of_false (not_isCutOff_of_outcome houtcome) (Bool.eq_false_iff.mp hkept)
  | waits goal hstage =>
    refine hgoesOn (.waiting goal) Stage.noConfusion Stage.noConfusion rfl ?_
    simp only [derails, hstage, Bool.not_true, Bool.false_and]
  | refused => exact hgoesOn .finished Stage.noConfusion Stage.noConfusion rfl ‹_›
  | gotCatalog => exact hgoesOn _ Stage.noConfusion Stage.noConfusion rfl ‹_›
  | stored => exact hgoesOn _ Stage.noConfusion Stage.noConfusion rfl ‹_›
  | responded => exact hgoesOn .finished Stage.noConfusion Stage.noConfusion rfl ‹_›
  | cleared => exact iff_of_false hx Bool.noConfusion
  | returned =>
    rw [callReturns_snd]
    exact iff_of_false hx Bool.noConfusion
  | cancelled => exact iff_of_false hx Bool.noConfusion

/-! ## What every step keeps -/

/-- An operation is the same one in two states. -/
structure SameOperation (x y : Execution) : Prop where
  id : y.id = x.id
  request : y.request = x.request
  dataHandle : y.dataHandle = x.dataHandle

theorem sameOperation_of_outcome {services : List Service} {goal : Goal}
    {after : ClientState × Execution} (h : Outcome s x services goal after) :
    SameOperation x after.2 := by
  cases h <;> exact ⟨rfl, rfl, rfl⟩

theorem sameOperation_of_acted {event : Event} {after : ClientState × Execution}
    (h : Acted s x event after) : SameOperation x after.2 := by
  cases h with
  | entered _ goal _ _ _ houtcome => exact sameOperation_of_outcome houtcome
  | lookedUp apis inFrame rest goal _ _ _ _ houtcome =>
    obtain ⟨hid, hrequest, hdataHandle⟩ := sameOperation_of_outcome houtcome
    obtain ⟨onCaller, ownsMutex, hanswered⟩ := answeredIn_eq (x := x) inFrame
    rw [hanswered] at hid hrequest hdataHandle
    exact ⟨hid, hrequest, hdataHandle⟩
  | returned =>
    rw [callReturns_snd]
    exact ⟨rfl, rfl, rfl⟩
  | derailed => exact ⟨rfl, rfl, rfl⟩
  | waits => exact ⟨rfl, rfl, rfl⟩
  | refused => exact ⟨rfl, rfl, rfl⟩
  | gotCatalog => exact ⟨rfl, rfl, rfl⟩
  | stored => exact ⟨rfl, rfl, rfl⟩
  | responded => exact ⟨rfl, rfl, rfl⟩
  | cleared => exact ⟨rfl, rfl, rfl⟩
  | cancelled => exact ⟨rfl, rfl, rfl⟩

theorem hasLookup_of_outcome {services : List Service} {goal : Goal}
    {after : ClientState × Execution} (h : Outcome s x services goal after) :
    after.1.init.lookupUrl = s.init.lookupUrl ∧ HasLookup after.1 after.2 := by
  cases h with
  | aborted e init ownsMutex mustClear hurl => exact ⟨hurl, fun _ _ hstage => by cases hstage⟩
  | rejected p init ownsMutex hurl => exact ⟨hurl, fun _ _ hstage => by cases hstage⟩
  | asked request init ownsMutex hurl => exact ⟨hurl, fun _ _ hstage => by cases hstage⟩
  | restarted p contentType init ownsMutex hurl =>
    exact ⟨hurl, fun _ _ hstage => by cases hstage⟩
  | lookingUp service rest init ownsMutex hurl hset => exact ⟨hurl, fun _ _ _ => hurl ▸ hset⟩

theorem hasLookup_of_acted {event : Event} {after : ClientState × Execution}
    (hlookup : HasLookup s x) (h : Acted s x event after) :
    after.1.init.lookupUrl = s.init.lookupUrl ∧ HasLookup after.1 after.2 := by
  cases h with
  | derailed _ stage init onCaller ownsMutex hstage hurl =>
    refine ⟨hurl, fun _ _ hlookingUp => ?_⟩
    rcases hstage with rfl | rfl <;> cases hlookingUp
  | entered _ goal _ _ _ houtcome => exact hasLookup_of_outcome houtcome
  | lookedUp apis inFrame rest goal _ _ _ _ houtcome => exact hasLookup_of_outcome houtcome
  | returned =>
    unfold HasLookup
    rw [callReturns_snd, callReturns_init]
    exact ⟨rfl, hlookup⟩
  | cleared => exact ⟨rfl, hlookup⟩
  | cancelled => exact ⟨rfl, hlookup⟩
  | waits => exact ⟨rfl, fun _ _ hstage => by cases hstage⟩
  | refused => exact ⟨rfl, fun _ _ hstage => by cases hstage⟩
  | gotCatalog => exact ⟨rfl, fun _ _ hstage => by cases hstage⟩
  | stored => exact ⟨rfl, fun _ _ hstage => by cases hstage⟩
  | responded => exact ⟨rfl, fun _ _ hstage => by cases hstage⟩

theorem hasLookup_begin (s : ClientState) (id : ℕ) (call : Call) :
    HasLookup s (call.begin id) := by
  intro rest goal hstage
  unfold Call.begin at hstage
  dsimp only at hstage
  split at hstage <;> cases hstage

/-- **An invariant of the operations**: what holds of a call that begins and what `Acted` keeps
holds of every operation, whatever happens to the others. -/
theorem forall_operation_step {P : Execution → Prop} (hbegin : ∀ id call, P (Call.begin id call))
    (hacted : ∀ s x event after, P x → Acted s x event after → P after.2) {s s' : System}
    {action : Action Call Event}
    (hs : ∀ x ∈ s.parties, HasLookup s.shared x ∧ P x) (hstep : step s action = some s') :
    ∀ x ∈ s'.parties, HasLookup s'.shared x ∧ P x := by
  refine Parties.forall_step_shared (P := fun shared x => HasLookup shared x ∧ P x)
    (fun shared call => ⟨hasLookup_begin shared _ call, hbegin _ call⟩) ?_ hs hstep
  rintro shared x event shared' x' ⟨hlookup, hx⟩ hact
  have h : Acted shared x event (shared', x') := acted_of_act hlookup hact
  obtain ⟨hurl, hlookup'⟩ := hasLookup_of_acted hlookup h
  refine ⟨⟨hlookup', hacted shared x event _ hx h⟩, ?_⟩
  rintro other ⟨hother, hpother⟩
  exact ⟨fun rest goal hstage => hurl ▸ hother rest goal hstage, hpother⟩

end

end OlpEdgeSdk.Analysis.VersionedLayerClient

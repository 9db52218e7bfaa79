import OlpEdgeSdk.Analysis.OperationSteps

/-!
# Publishing to a batch

`PublishToBatch` stores its data as a blob and then registers the blob as a partition of the
publication. What it has asked for and what has succeeded follow `Progress`, wherever a
sub-request fails, the operation is cancelled or another operation comes between; the callback
is called at the end, unless a chain of callbacks is cut off.

SOURCE: VersionedLayerClientImpl.cpp:508-737
-/

set_option autoImplicit false

namespace OlpEdgeSdk.Analysis.VersionedLayerClient

open OlpEdgeSdk.Base OlpEdgeSdk.Model OlpEdgeSdk.Model.VersionedLayerClient
open OlpEdgeSdk.Model.LayerClientInit (Service InitState versionedLayerServices)

/-! ## The two uploads -/

def blobUpload (p : Publishing) (contentType : List Char) : SubRequest :=
  .putBlob p.layerId contentType p.dataHandle p.data

def partitionUpload (p : Publishing) : SubRequest :=
  .uploadPartitions p.publicationId p.layerId p.partition p.dataHandle

def isUpload : SubRequest → Bool
  | .putBlob .. | .uploadPartitions .. => true
  | _ => false

/-- The uploads among some sub-requests. -/
def uploads (requests : List SubRequest) : List SubRequest := requests.filter isUpload

/-- How far a publishing is: nothing is uploaded; the blob is; the blob is stored; the partition
is uploaded; the partition is registered. -/
inductive Progress where
  | idle
  | storing (contentType : List Char)
  | stored (contentType : List Char)
  | registering (contentType : List Char)
  | registered (contentType : List Char)

def Progress.asked (p : Publishing) : Progress → List SubRequest
  | .idle => []
  | .storing contentType | .stored contentType => [blobUpload p contentType]
  | .registering contentType | .registered contentType =>
    [blobUpload p contentType, partitionUpload p]

def Progress.succeeded (p : Publishing) : Progress → List SubRequest
  | .idle | .storing _ => []
  | .stored contentType | .registering contentType => [blobUpload p contentType]
  | .registered contentType => [blobUpload p contentType, partitionUpload p]

def Progress.isRegistered : Progress → Bool
  | .registered _ => true
  | _ => false

/-- The part of a publishing that comes next. -/
inductive Heads (p : Publishing) : Progress → Goal → Prop where
  | catalog : Heads p .idle (.catalog p)
  | blob (contentType : List Char) : Heads p .idle (.blob p contentType)
  | partition (contentType : List Char) : Heads p (.stored contentType) (.partition p)

/-- The sub-request of a part that is under way. -/
inductive Carries (p : Publishing) : Progress → SubRequest → Goal → Prop where
  | catalog : Carries p .idle .getCatalog (.catalog p)
  | blob (contentType : List Char) :
      Carries p (.storing contentType) (blobUpload p contentType) (.blob p contentType)
  | partition (contentType : List Char) :
      Carries p (.registering contentType) (partitionUpload p) (.partition p)

/-- Where a publishing is agrees with how far it is and with its callbacks. -/
def Fits (p : Publishing) (progress : Progress) (callbacks : List Result) : Stage → Prop
  | .entering goal | .waiting goal | .lookingUp _ goal => Heads p progress goal ∧ callbacks = []
  | .asking request goal => Carries p progress request goal ∧ callbacks = []
  | .finished => ∃ result : Result, callbacks = [result] ∧
      (result.isOk = true ↔ progress.isRegistered = true)
  | .thrown | .hanging => callbacks = []

/-- The parts of an operation from a goal on. -/
def parts : Goal → ℕ
  | .catalog _ => 3
  | .blob _ _ => 2
  | .partition _ | .request _ => 1

/-- How many sub-requests can still be made: a part has four lookups and a request of its own. -/
def room : Stage → ℕ
  | .entering goal | .waiting goal => 5 * parts goal
  | .lookingUp rest goal => rest.length + 1 + 5 * (parts goal - 1)
  | .asking _ goal => 5 * (parts goal - 1)
  | .finished | .thrown | .hanging => 0

/-- **What holds of a publishing** in every state. -/
structure Placed (p : Publishing) (x : Execution) : Prop where
  progress : ∃ progress : Progress, uploads x.asked = progress.asked p ∧
    uploads x.succeeded = progress.succeeded p ∧ Fits p progress x.callbacks x.stage
  room : x.asked.length + room x.stage ≤ 15

/-- What an execution publishes, if its request is `PublishToBatch`. -/
def publishing (x : Execution) : Option Publishing :=
  match x.request with
  | .publishToBatch publicationId layerId partitionId data =>
    some ⟨publicationId.getD [], layerId, partitionId.getD [], data, x.dataHandle⟩
  | _ => none

/-! ## Steps -/

section

variable {p : Publishing} {s : ClientState} {x : Execution}

theorem uploads_append_of_not {requests : List SubRequest} {request : SubRequest}
    (h : isUpload request = false) : uploads (requests ++ [request]) = uploads requests := by
  rw [uploads, List.filter_append, List.filter_singleton, h]
  exact List.append_nil _

theorem uploads_append_of_upload {requests : List SubRequest} {request : SubRequest}
    (h : isUpload request = true) :
    uploads (requests ++ [request]) = uploads requests ++ [request] := by
  rw [uploads, List.filter_append, List.filter_singleton, h]
  rfl

/-- A part that comes next has not registered anything. -/
theorem Heads.not_registered {progress : Progress} {goal : Goal} (h : Heads p progress goal) :
    progress.isRegistered = false := by
  cases h <;> rfl

/-- A publishing that gives up before its partition is registered. -/
theorem fits_error {progress : Progress} (hnot : progress.isRegistered = false) (e : ApiError) :
    Fits p progress ([] ++ [.error e]) .finished := by
  refine ⟨.error e, rfl, ?_⟩
  rw [hnot]
  exact Iff.rfl

/-- What a chain of callbacks makes of a publishing that has a part to do. -/
theorem placed_of_outcome {services : List Service} {goal : Goal} {progress : Progress}
    {after : ClientState × Execution} (hasked : uploads x.asked = progress.asked p)
    (hsucceeded : uploads x.succeeded = progress.succeeded p) (hheads : Heads p progress goal)
    (hcallbacks : x.callbacks = [])
    (hroom : x.asked.length + (services.length + 1 + 5 * (parts goal - 1)) ≤ 15)
    (h : Outcome s x services goal after) : Placed p after.2 := by
  cases h with
  | aborted e init ownsMutex mustClear =>
    refine ⟨⟨progress, hasked, hsucceeded, ?_⟩, by dsimp only [room]; omega⟩
    rw [hcallbacks]
    exact fits_error hheads.not_registered e
  | rejected q init ownsMutex =>
    refine ⟨⟨progress, hasked, hsucceeded, ?_⟩, by dsimp only [room]; omega⟩
    rw [hcallbacks]
    exact fits_error hheads.not_registered _
  | asked request init ownsMutex _ hasks =>
    have hlength : (x.asked ++ [request]).length + room (.asking request goal) ≤ 15 := by
      rw [List.length_append, List.length_singleton]
      dsimp only [room]
      omega
    refine ⟨?_, hlength⟩
    cases hheads with
    | catalog =>
      cases hasks
      refine ⟨.idle, ?_, hsucceeded, .catalog, hcallbacks⟩
      rw [uploads_append_of_not rfl, hasked]
    | blob contentType =>
      cases hasks
      refine ⟨.storing contentType, ?_, hsucceeded, .blob contentType, hcallbacks⟩
      rw [uploads_append_of_upload rfl, hasked]
      rfl
    | partition contentType =>
      cases hasks
      refine ⟨.registering contentType, ?_, hsucceeded, .partition contentType, hcallbacks⟩
      rw [uploads_append_of_upload rfl, hasked]
      rfl
  | restarted q contentType init ownsMutex _ hgoal =>
    subst hgoal
    cases hheads
    refine ⟨⟨.idle, hasked, hsucceeded, .blob contentType, hcallbacks⟩, ?_⟩
    dsimp only [room, parts] at hroom ⊢
    omega
  | lookingUp service rest init ownsMutex _ _ hservices =>
    subst hservices
    refine ⟨⟨progress, ?_, hsucceeded, hheads, hcallbacks⟩, ?_⟩
    · rw [uploads_append_of_not rfl, hasked]
    · rw [List.length_append, List.length_singleton]
      rw [List.length_cons] at hroom
      dsimp only [room]
      omega

/-- The response of a publishing is a success iff the last sub-request is. -/
theorem respond_isOk (h : publishing x = some p) (response : Result) :
    (x.operation.respond response).isOk = response.isOk := by
  unfold publishing at h
  unfold Execution.operation
  cases hrequest : x.request with
  | publishToBatch publicationId layerId partitionId data => cases response <;> rfl
  | _ =>
    rw [hrequest] at h
    cases h

theorem publishing_of_sameOperation {y : Execution} (h : SameOperation x y) :
    publishing y = publishing x := by
  unfold publishing
  rw [h.request, h.dataHandle]

/-- Nothing has been answered while a publishing is under way. -/
theorem fits_of_initialises {progress : Progress} {callbacks : List Result} {goal : Goal}
    {stage : Stage} (hstage : Initialises goal stage) (hfits : Fits p progress callbacks stage) :
    Heads p progress goal ∧ callbacks = [] := by
  rcases hstage with rfl | rfl | ⟨rest, rfl⟩
  · exact hfits
  · exact hfits
  · exact hfits

/-- A publishing that gives up at an answer before the last has registered nothing: its blob is
stored if the answer was a success. -/
theorem Carries.refused {progress : Progress} {request : SubRequest} {goal : Goal}
    {before succeeded : List SubRequest} (h : Carries p progress request goal)
    (hbefore : uploads before = progress.succeeded p)
    (hgoal : (∃ q, goal = .catalog q ∧ succeeded = before) ∨
      ∃ q contentType, goal = .blob q contentType ∧
        (succeeded = before ∨ succeeded = before ++ [request])) :
    ∃ progress' : Progress, progress'.asked p = progress.asked p ∧
      uploads succeeded = progress'.succeeded p ∧ progress'.isRegistered = false := by
  cases h with
  | catalog =>
    obtain ⟨q, -, rfl⟩ | ⟨q, contentType, hgoal, -⟩ := hgoal
    · exact ⟨.idle, rfl, hbefore, rfl⟩
    · cases hgoal
  | blob contentType =>
    obtain ⟨q, hgoal, -⟩ | ⟨q, contentType', -, rfl | rfl⟩ := hgoal
    · cases hgoal
    · exact ⟨.storing contentType, rfl, hbefore, rfl⟩
    · refine ⟨.stored contentType, rfl, ?_, rfl⟩
      rw [uploads_append_of_upload rfl, hbefore]
      rfl
  | partition contentType =>
    obtain ⟨q, hgoal, -⟩ | ⟨q, contentType', hgoal, -⟩ := hgoal
    · cases hgoal
    · cases hgoal

/-- The last sub-request of a publishing is the upload of its partition. -/
theorem Carries.last {progress : Progress} {request : SubRequest} {goal : Goal}
    (h : Carries p progress request goal)
    (hgoal : (∃ own, goal = .request own) ∨ ∃ q, goal = .partition q) :
    request = partitionUpload p ∧ ∃ contentType, progress = .registering contentType := by
  cases h with
  | catalog =>
    obtain ⟨own, hgoal⟩ | ⟨q, hgoal⟩ := hgoal
    · cases hgoal
    · cases hgoal
  | blob contentType =>
    obtain ⟨own, hgoal⟩ | ⟨q, hgoal⟩ := hgoal
    · cases hgoal
    · cases hgoal
  | partition contentType => exact ⟨rfl, contentType, rfl⟩

/-- **A step of a publishing** keeps its place. -/
theorem placed_of_acted {event : Event} {after : ClientState × Execution} (hx : Placed p x)
    (hpublishing : publishing x = some p) (h : Acted s x event after) : Placed p after.2 := by
  obtain ⟨⟨progress, hasked, hsucceeded, hfits⟩, hroom⟩ := hx
  cases h with
  | derailed _ stage init onCaller ownsMutex hoff _ hderails =>
    obtain ⟨goal, hstage⟩ := initialises_of_derails hderails
    obtain ⟨-, hcallbacks⟩ := fits_of_initialises hstage hfits
    have hcut : Fits p progress x.callbacks stage ∧ room stage = 0 := by
      rcases hoff with rfl | rfl
      · exact ⟨hcallbacks, rfl⟩
      · exact ⟨hcallbacks, rfl⟩
    have hlength : x.asked.length + room stage ≤ 15 := by
      rw [hcut.2]
      exact Nat.le_trans (Nat.le_add_right _ _) hroom
    exact ⟨⟨progress, hasked, hsucceeded, hcut.1⟩, hlength⟩
  | waits goal hstage =>
    rw [hstage] at hfits hroom
    exact ⟨⟨progress, hasked, hsucceeded, hfits⟩, hroom⟩
  | entered _ goal _ hstage _ houtcome =>
    have hinitialises : Initialises goal x.stage := hstage.imp_right Or.inl
    obtain ⟨hheads, hcallbacks⟩ := fits_of_initialises hinitialises hfits
    refine placed_of_outcome hasked hsucceeded hheads hcallbacks ?_ houtcome
    have hparts : room x.stage = 5 * parts goal := by
      rcases hstage with hstage | hstage <;> rw [hstage] <;> rfl
    have hpositive : 0 < parts goal := by cases goal <;> exact Nat.succ_pos _
    have hlength : versionedLayerServices.length = 4 := rfl
    rw [hlength]
    omega
  | lookedUp apis inFrame rest goal _ hstage _ _ houtcome =>
    rw [hstage] at hfits hroom
    obtain ⟨onCaller, ownsMutex, hanswered⟩ := answeredIn_eq (x := x) inFrame
    rw [hanswered] at houtcome
    exact placed_of_outcome
      (x := { x with onCaller := onCaller, ownsMutex := ownsMutex }) hasked hsucceeded hfits.1
      hfits.2 hroom houtcome
  | refused _ request goal e catalogModel tokenList onCaller ownsMutex succeeded hstage hgoal =>
    rw [hstage] at hfits hroom
    obtain ⟨hcarries, hcallbacks⟩ := hfits
    obtain ⟨progress', hsame, hsucceeded', hnot⟩ := hcarries.refused hsucceeded hgoal
    have hasked' : uploads x.asked = progress'.asked p := hasked.trans hsame.symm
    refine ⟨⟨progress', hasked', hsucceeded', ?_⟩, Nat.le_trans (Nat.le_add_right _ _) hroom⟩
    rw [hcallbacks]
    exact fits_error hnot e
  | gotCatalog _ request q contentType catalogModel onCaller ownsMutex hstage =>
    rw [hstage] at hfits hroom
    obtain ⟨hcarries, hcallbacks⟩ := hfits
    cases hcarries
    exact ⟨⟨.idle, hasked, hsucceeded, .blob contentType, hcallbacks⟩, hroom⟩
  | stored _ request q contentType onCaller ownsMutex hstage =>
    rw [hstage] at hfits hroom
    obtain ⟨hcarries, hcallbacks⟩ := hfits
    cases hcarries
    refine ⟨⟨.stored contentType, hasked, ?_, .partition contentType, hcallbacks⟩, hroom⟩
    rw [uploads_append_of_upload rfl, hsucceeded]
    rfl
  | responded _ request goal response onCaller ownsMutex hstage hgoal =>
    rw [hstage] at hfits hroom
    obtain ⟨hcarries, hcallbacks⟩ := hfits
    have hrespond := respond_isOk hpublishing response
    refine ⟨?_, Nat.le_trans (Nat.le_add_right _ _) hroom⟩
    rw [hcallbacks]
    obtain ⟨rfl, contentType, rfl⟩ := hcarries.last hgoal
    cases response with
    | error e =>
      refine ⟨.registering contentType, hasked, hsucceeded, _, rfl, ?_⟩
      rw [hrespond]
      exact Iff.rfl
    | ok value =>
      refine ⟨.registered contentType, hasked, ?_, _, rfl, ?_⟩
      · rw [if_pos (show (Except.ok value : Result).isOk = true from rfl),
          uploads_append_of_upload rfl, hsucceeded]
        rfl
      · rw [hrespond]
        exact Iff.rfl
  | cleared => exact ⟨⟨progress, hasked, hsucceeded, hfits⟩, hroom⟩
  | returned =>
    rw [callReturns_snd]
    exact ⟨⟨progress, hasked, hsucceeded, hfits⟩, hroom⟩
  | cancelled => exact ⟨⟨progress, hasked, hsucceeded, hfits⟩, hroom⟩

theorem placed_begin {id : ℕ} {call : Call} (h : publishing (call.begin id) = some p) :
    Placed p (call.begin id) := by
  obtain ⟨request, dataHandle, ownsMutex⟩ := call
  cases request with
  | publishToBatch publicationId layerId partitionId data =>
    have hp : p = ⟨publicationId.getD [], layerId, partitionId.getD [], data, dataHandle⟩ := by
      unfold Call.begin at h
      dsimp only at h
      split at h
      · exact (Option.some.inj h).symm
      · exact (Option.some.inj h).symm
    subst hp
    unfold Call.begin
    dsimp only
    split
    · exact ⟨⟨.idle, rfl, rfl, .catalog, rfl⟩, Nat.le_refl 15⟩
    · exact ⟨⟨.idle, rfl, rfl, _, rfl, Iff.rfl⟩, Nat.zero_le 15⟩
  | _ =>
    unfold Call.begin at h
    dsimp only at h
    split at h <;> cases h

end

/-! ## What a publishing owes -/

/-- Nothing of an operation is under way any more. -/
def isOver : Stage → Bool
  | .finished | .thrown | .hanging => true
  | .entering _ | .waiting _ | .lookingUp _ _ | .asking _ _ => false

/-- **Publishing never registers missing data.** The blob and the partition are uploaded in this
order, each at most once, with the data handle that was generated and the layer, and the
partition only when the blob is stored. A publishing makes at most fifteen sub-requests; its
callback is called at most once, it has been when nothing is under way any more, and with a
success iff both uploads have succeeded. -/
structure PublishesWell (p : Publishing) (x : Execution) : Prop where
  ordered : ∃ contentType, uploads x.asked <+: [blobUpload p contentType, partitionUpload p]
  stored : partitionUpload p ∈ x.asked → ∃ contentType, blobUpload p contentType ∈ x.succeeded
  bounded : x.asked.length ≤ 15
  once : x.callbacks.length ≤ 1
  replied : isOver x.stage = true → x.callbacks.length = 1
  success : ∀ result ∈ x.callbacks, (result.isOk = true ↔
    (∃ contentType, blobUpload p contentType ∈ x.succeeded) ∧ partitionUpload p ∈ x.succeeded)

section

variable {p : Publishing} {x : Execution}

theorem mem_uploads {requests : List SubRequest} {request : SubRequest}
    (h : isUpload request = true) : request ∈ uploads requests ↔ request ∈ requests := by
  rw [uploads, List.mem_filter]
  exact and_iff_left h

theorem Progress.asked_prefix (progress : Progress) :
    ∃ contentType, progress.asked p <+: [blobUpload p contentType, partitionUpload p] := by
  cases progress with
  | idle => exact ⟨[], List.nil_prefix⟩
  | storing contentType => exact ⟨contentType, [_], rfl⟩
  | stored contentType => exact ⟨contentType, [_], rfl⟩
  | registering contentType => exact ⟨contentType, [], rfl⟩
  | registered contentType => exact ⟨contentType, [], rfl⟩

theorem partitionUpload_not_mem {contentType : List Char} :
    partitionUpload p ∉ [blobUpload p contentType] := by
  rw [List.mem_singleton]
  exact SubRequest.noConfusion

/-- The partition is only uploaded when the blob is stored. -/
theorem Progress.stored_of_asked {progress : Progress}
    (h : partitionUpload p ∈ progress.asked p) :
    ∃ contentType, blobUpload p contentType ∈ progress.succeeded p := by
  cases progress with
  | idle => exact absurd h List.not_mem_nil
  | storing contentType => exact absurd h partitionUpload_not_mem
  | stored contentType => exact absurd h partitionUpload_not_mem
  | registering contentType => exact ⟨contentType, List.mem_singleton.mpr rfl⟩
  | registered contentType => exact ⟨contentType, List.mem_cons_self⟩

/-- Both uploads have succeeded iff the partition is registered. -/
theorem Progress.succeeded_iff (progress : Progress) :
    ((∃ contentType, blobUpload p contentType ∈ progress.succeeded p) ∧
      partitionUpload p ∈ progress.succeeded p) ↔ progress.isRegistered = true := by
  cases progress with
  | idle => exact iff_of_false (fun h => List.not_mem_nil h.2) Bool.noConfusion
  | storing contentType => exact iff_of_false (fun h => List.not_mem_nil h.2) Bool.noConfusion
  | stored contentType =>
    exact iff_of_false (fun h => partitionUpload_not_mem h.2) Bool.noConfusion
  | registering contentType =>
    exact iff_of_false (fun h => partitionUpload_not_mem h.2) Bool.noConfusion
  | registered contentType =>
    have hpartition : partitionUpload p ∈ [blobUpload p contentType, partitionUpload p] :=
      List.mem_cons_of_mem _ (List.mem_singleton.mpr rfl)
    exact iff_of_true ⟨⟨contentType, List.mem_cons_self⟩, hpartition⟩ rfl

/-- What is answered fits the end of a publishing. -/
theorem callbacks_of_fits {progress : Progress} {callbacks : List Result} {stage : Stage}
    (h : Fits p progress callbacks stage) :
    callbacks = [] ∨ stage = .finished ∧ ∃ result : Result, callbacks = [result] ∧
      (result.isOk = true ↔ progress.isRegistered = true) := by
  cases stage with
  | entering goal => exact Or.inl h.2
  | waiting goal => exact Or.inl h.2
  | lookingUp rest goal => exact Or.inl h.2
  | asking request goal => exact Or.inl h.2
  | finished => exact Or.inr ⟨rfl, h⟩
  | thrown => exact Or.inl h
  | hanging => exact Or.inl h

theorem isOver_of_cutOff (h : IsCutOff x) : isOver x.stage = true := by
  rcases h with h | h <;> rw [h] <;> rfl

/-- **A publishing does what it owes** unless it is cut off. -/
theorem publishesWell_iff (h : Placed p x) : PublishesWell p x ↔ ¬ IsCutOff x := by
  obtain ⟨⟨progress, hasked, hsucceeded, hfits⟩, hroom⟩ := h
  constructor
  · intro hwell hcut
    have hcallbacks : x.callbacks = [] := by
      rcases hcut with hcut | hcut <;> rw [hcut] at hfits <;> exact hfits
    have hone := hwell.replied (isOver_of_cutOff hcut)
    rw [hcallbacks] at hone
    cases hone
  · intro hkept
    have hmem : ∀ request, isUpload request = true →
        (request ∈ x.asked ↔ request ∈ progress.asked p) ∧
          (request ∈ x.succeeded ↔ request ∈ progress.succeeded p) := by
      intro request hupload
      rw [← hasked, ← hsucceeded, mem_uploads hupload, mem_uploads hupload]
      exact ⟨Iff.rfl, Iff.rfl⟩
    have hblob : (∃ contentType, blobUpload p contentType ∈ x.succeeded) ↔
        ∃ contentType, blobUpload p contentType ∈ progress.succeeded p :=
      exists_congr fun contentType => (hmem (blobUpload p contentType) rfl).2
    refine ⟨hasked ▸ progress.asked_prefix, ?_, ?_, ?_, ?_, ?_⟩
    · intro hpartition
      exact hblob.mpr (Progress.stored_of_asked ((hmem (partitionUpload p) rfl).1.mp hpartition))
    · exact Nat.le_trans (Nat.le_add_right _ _) hroom
    · obtain hnone | ⟨-, result, hone, -⟩ := callbacks_of_fits hfits
      · rw [hnone]
        exact Nat.zero_le 1
      · rw [hone]
        exact Nat.le_refl 1
    · intro hover
      cases hstage : x.stage with
      | finished =>
        rw [hstage] at hfits
        obtain ⟨result, hone, -⟩ := hfits
        rw [hone]
        rfl
      | thrown => exact absurd (Or.inl hstage) hkept
      | hanging => exact absurd (Or.inr hstage) hkept
      | _ =>
        rw [hstage] at hover
        cases hover
    · intro result hresult
      rw [hblob, (hmem (partitionUpload p) rfl).2, progress.succeeded_iff]
      obtain hnone | ⟨-, result', hone, hok⟩ := callbacks_of_fits hfits
      · rw [hnone] at hresult
        cases hresult
      · rw [hone, List.mem_singleton] at hresult
        rw [hresult]
        exact hok

end

/-! ## Runs -/

/-- Every publishing of a client does what it owes. -/
def PublishesAll (s : System) : Prop :=
  ∀ x ∈ s.parties, ∀ p, publishing x = some p → PublishesWell p x

/-- An event does not cut off a publishing. -/
def KeepsPublishing (s : System) : Action Call Event → Prop
  | .join _ => True
  | .act i event => ∀ x, s.parties[i]? = some x → publishing x ≠ none →
    derails s.shared x event = false

/-- Every publishing of a client has a place. -/
def AllPlaced (s : System) : Prop :=
  ∀ x ∈ s.parties, HasLookup s.shared x ∧ ∀ p, publishing x = some p → Placed p x

theorem allPlaced_step {s s' : System} {action : Action Call Event} (hs : AllPlaced s)
    (hstep : step s action = some s') : AllPlaced s' := by
  refine forall_operation_step (fun id call p h => placed_begin h) ?_ hs hstep
  intro shared x event after hx hacted p hpublishing
  rw [publishing_of_sameOperation (sameOperation_of_acted hacted)] at hpublishing
  exact placed_of_acted (hx p hpublishing) hpublishing hacted

theorem publishesAll_iff {s : System} (hs : AllPlaced s) :
    PublishesAll s ↔ ∀ x ∈ s.parties, publishing x ≠ none → ¬ IsCutOff x := by
  refine forall_congr' fun x => forall_congr' fun hx => ?_
  constructor
  · intro hwell hpublishing
    obtain ⟨p, hp⟩ := Option.ne_none_iff_exists'.mp hpublishing
    exact (publishesWell_iff ((hs x hx).2 p hp)).mp (hwell p hp)
  · intro hkept p hp
    refine (publishesWell_iff ((hs x hx).2 p hp)).mpr (hkept ?_)
    rw [hp]
    exact Option.some_ne_none p

/-- A step leaves all publishings well iff it does not cut off the one that acts. -/
theorem publishesAll_step {s s' : System} {action : Action Call Event} (hs : AllPlaced s)
    (hwell : PublishesAll s) (hstep : step s action = some s') :
    PublishesAll s' ↔ KeepsPublishing s action := by
  have hs' := allPlaced_step hs hstep
  rw [publishesAll_iff hs] at hwell
  rw [publishesAll_iff hs']
  cases action with
  | join call =>
    cases hstep
    refine iff_of_true ?_ trivial
    intro x hx hpublishing
    rcases List.mem_append.mp hx with hx | hx
    · exact hwell x hx hpublishing
    · rw [List.mem_singleton.mp hx]
      exact not_isCutOff_begin _ call
  | act i event =>
    obtain ⟨x, shared, x', hi, hact, rfl⟩ := Parties.step_act hstep
    have hx := List.mem_of_getElem? hi
    have hacted : Acted s.shared x event (shared, x') := acted_of_act (hs x hx).1 hact
    have hsame := publishing_of_sameOperation (sameOperation_of_acted hacted)
    constructor
    · intro hkept y hy hpublishing
      have hyx : y = x := Option.some.inj (hy.symm.trans hi)
      subst hyx
      rw [← hsame] at hpublishing
      have hx' : x' ∈ s.parties.set i x' := List.mem_set (List.getElem?_eq_some_iff.mp hi).1 x'
      have hnot := hkept x' hx' hpublishing
      rw [isCutOff_of_acted (hwell y hx (hsame ▸ hpublishing)) hacted] at hnot
      exact Bool.eq_false_iff.mpr hnot
    · intro hkeeps y hy hpublishing
      rcases List.mem_or_eq_of_mem_set hy with hy | rfl
      · exact hwell y hy hpublishing
      · rw [hsame] at hpublishing
        rw [isCutOff_of_acted (hwell x hx hpublishing) hacted, hkeeps x hi hpublishing]
        exact Bool.noConfusion

theorem keepsPublishing_of_eq_none {s : System} {action : Action Call Event}
    (h : step s action = none) : KeepsPublishing s action := by
  cases action with
  | join call => cases h
  | act i event =>
    intro x hi _
    refine Bool.eq_false_iff.mpr fun hderails => act_ne_none_of_derails hderails ?_
    exact Parties.act_eq_none_of_step h hi

/-- **Publishing to a batch never registers missing data**, in every state of a run of a client,
whatever the other operations do: if and only if no step cuts off a publishing, that is, the test
of the flag never finds it set without having the mutex, no lookup answers with an empty list,
and the last lookup never answers on a thread that owns the mutex.
SOURCE: VersionedLayerClientImpl.cpp:508-737 -/
theorem publishing_registers_stored_iff (lookupUrl : List Char)
    (actions : List (Action Call Event)) :
    (∀ before, before <+: actions → ∀ s,
        runFrom step (initial lookupUrl) before = some s → PublishesAll s) ↔
      Along step KeepsPublishing (initial lookupUrl) actions := by
  refine forall_before_iff_along AllPlaced PublishesAll (fun _ _ _ => allPlaced_step)
    (fun _ _ _ => publishesAll_step) (fun _ _ _ => keepsPublishing_of_eq_none) ?_ ?_ actions
  · intro x hx
    cases hx
  · intro x hx
    cases hx

/-- All four lookups answer inside the call, which has the mutex when the last one does. -/
theorem publishing_locks_own_mutex :
    let lookedUp : Event := .lookedUp (.ok [['u']]) true
    let actions : List (Action Call Event) :=
      [.join ⟨.publishToBatch (some ['p']) ['l'] none ['d'], ['h'], false⟩, .act 0 (.enter true),
        .act 0 lookedUp, .act 0 lookedUp, .act 0 lookedUp, .act 0 lookedUp]
    ∃ s x p, runFrom step (initial ['a']) actions = some s ∧ x ∈ s.parties ∧
      publishing x = some p ∧ x.stage = .hanging ∧ ¬ PublishesWell p x := by
  intro lookedUp actions
  refine ⟨_, _, _, rfl, List.mem_singleton.mpr rfl, rfl, rfl, fun hwell => ?_⟩
  have hone := hwell.replied rfl
  cases hone

end OlpEdgeSdk.Analysis.VersionedLayerClient

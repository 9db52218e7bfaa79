import Mathlib.Data.List.Nodup
import Mathlib.Data.Set.Operations
import Mathlib.Order.Interval.Set.Defs
import OlpEdgeSdk.Base.Decimal
import OlpEdgeSdk.Base.Runs
import OlpEdgeSdk.Model.VolatileLayerClient

/-!
# Publication to a batch of a volatile layer

A list of requests is taken exactly if it is `Acceptable` (`check_eq_none_iff`), and what is
uploaded for it has an entry for each request. A request with a checksum has the checksum for
its data handle, not the uuid generated for it, so that the handles are distinct exactly if no
checksum is repeated (`nodup_dataHandles_iff`), and are generated exactly if there is no checksum
at all (`uploads_faithful_iff`). Every operation makes one upload and one callback at most
(`oneUpload_runFrom`).
-/

set_option autoImplicit false

namespace OlpEdgeSdk.Analysis.VolatileBatches

open OlpEdgeSdk.Base OlpEdgeSdk.Model VolatileLayerClient

/-! ## The lists that are taken -/

/-- The requests name one layer, carry no data and name their partitions. -/
def Acceptable (partitions : List PublishPartitionDataRequest) : Prop :=
  partitions ≠ [] ∧ ∃ layerId, layerId ≠ [] ∧ ∀ request ∈ partitions,
    request.layerId = layerId ∧ request.data = none ∧
      ∃ partitionId, partitionId ≠ [] ∧ request.partitionId = some partitionId

section Checks

variable {publicationId firstLayerId : List Char}
  {partitions : List PublishPartitionDataRequest} {request : PublishPartitionDataRequest}

theorem checkRequest_eq_none_iff : checkRequest firstLayerId request = none ↔
    (request.layerId ≠ [] ∧ request.layerId = firstLayerId) ∧ request.data = none ∧
      ∃ partitionId, partitionId ≠ [] ∧ request.partitionId = some partitionId := by
  unfold checkRequest
  by_cases hlayer : request.layerId = [] ∨ request.layerId ≠ firstLayerId
  · rw [if_pos hlayer]
    apply iff_of_false (Option.some_ne_none _)
    rintro ⟨⟨hne, heq⟩, -⟩
    exact hlayer.elim hne (fun hother => hother heq)
  · rw [if_neg hlayer]
    rw [not_or, not_not] at hlayer
    by_cases hdata : request.data = none
    · rw [if_neg (not_not.mpr hdata)]
      cases hpartition : request.partitionId with
      | none => simp
      | some partitionId =>
        cases partitionId with
        | nil => simp
        | cons c cs =>
          rw [if_neg (by simp)]
          exact iff_of_true rfl ⟨hlayer, hdata, c :: cs, List.cons_ne_nil c cs, rfl⟩
    · rw [if_pos hdata]
      apply iff_of_false (Option.some_ne_none _)
      rintro ⟨-, hnone, -⟩
      exact hdata hnone

/-- **The checks**: what they let through is acceptable, and the other way round. -/
theorem check_eq_none_iff (hid : publicationId ≠ []) :
    check publicationId partitions = none ↔ Acceptable partitions := by
  unfold check
  rw [if_neg hid]
  cases partitions with
  | nil => exact iff_of_false (Option.some_ne_none _) fun h => h.1 rfl
  | cons first rest =>
    show (first :: rest).findSome? (checkRequest first.layerId) = none ↔ _
    rw [List.findSome?_eq_none_iff]
    constructor
    · intro h
      have hfirst := checkRequest_eq_none_iff.mp (h first List.mem_cons_self)
      refine ⟨List.cons_ne_nil first rest, first.layerId, hfirst.1.1, ?_⟩
      intro request hrequest
      obtain ⟨⟨-, hlayer⟩, hdata, hpartition⟩ :=
        checkRequest_eq_none_iff.mp (h request hrequest)
      exact ⟨hlayer, hdata, hpartition⟩
    · rintro ⟨-, layerId, hne, h⟩ request hrequest
      obtain ⟨hlayer, hdata, hpartition⟩ := h request hrequest
      have hfirst : first.layerId = layerId := (h first List.mem_cons_self).1
      apply checkRequest_eq_none_iff.mpr
      refine ⟨⟨?_, ?_⟩, hdata, hpartition⟩
      · rw [hlayer]
        exact hne
      · rw [hlayer, hfirst]

end Checks

/-! ## The partitions of an upload -/

section Upload

variable {generateUuid : ℕ → List Char} {generated : ℕ}
  {partitions : List PublishPartitionDataRequest}

/-- The data handles of the partitions for a list of requests. -/
def dataHandles (generateUuid : ℕ → List Char) (generated : ℕ)
    (partitions : List PublishPartitionDataRequest) : List (Option (List Char)) :=
  (pubPartitionList generateUuid generated partitions).map fun partition => partition.dataHandle

theorem dataHandle_pubPartition (uuid : List Char) (request : PublishPartitionDataRequest) :
    (pubPartition uuid request).dataHandle = some (request.checksum.getD uuid) := by
  unfold pubPartition
  cases request.checksum with
  | none => rfl
  | some checksum => rfl

theorem partition_pubPartition (uuid : List Char) (request : PublishPartitionDataRequest) :
    (pubPartition uuid request).partition = some (request.partitionId.getD []) := by
  unfold pubPartition
  cases request.checksum with
  | none => rfl
  | some checksum => rfl

theorem dataHandles_cons (request : PublishPartitionDataRequest) :
    dataHandles generateUuid generated (request :: partitions) =
      some (request.checksum.getD (generateUuid generated)) ::
        dataHandles generateUuid (generated + 1) partitions := by
  rw [← dataHandle_pubPartition]
  rfl

/-- One entry for each request, in order. -/
theorem map_partition_pubPartitionList :
    (pubPartitionList generateUuid generated partitions).map (fun partition => partition.partition)
      = partitions.map fun request => some (request.partitionId.getD []) := by
  induction partitions generalizing generated with
  | nil => rfl
  | cons request partitions ih =>
    rw [pubPartitionList, List.map_cons, List.map_cons, ih, partition_pubPartition]

/-- A data handle is the checksum of a request, or a uuid generated for one without. -/
theorem mem_dataHandles {dataHandle : Option (List Char)}
    (h : dataHandle ∈ dataHandles generateUuid generated partitions) :
    (∃ request ∈ partitions, request.checksum ≠ none ∧ dataHandle = request.checksum) ∨
      ∃ n, generated ≤ n ∧ n < generated + partitions.length ∧
        dataHandle = some (generateUuid n) := by
  induction partitions generalizing generated with
  | nil => exact absurd h List.not_mem_nil
  | cons request partitions ih =>
    rw [dataHandles_cons] at h
    rcases List.mem_cons.mp h with hhead | htail
    · cases hchecksum : request.checksum with
      | none =>
        right
        rw [hchecksum] at hhead
        exact ⟨generated, le_rfl, by simp, hhead⟩
      | some checksum =>
        left
        rw [hchecksum] at hhead
        refine ⟨request, List.mem_cons_self, ?_, ?_⟩
        · rw [hchecksum]
          exact Option.some_ne_none checksum
        · rw [hchecksum]
          exact hhead
    · rcases ih htail with ⟨request', hmem, hchecksum⟩ | ⟨n, hfirst, hlast, hn⟩
      · exact Or.inl ⟨request', List.mem_cons_of_mem _ hmem, hchecksum⟩
      · right
        refine ⟨n, by omega, ?_, hn⟩
        rw [List.length_cons]
        omega

theorem checksum_mem_dataHandles {request : PublishPartitionDataRequest} {checksum : List Char}
    (hmem : request ∈ partitions) (hchecksum : request.checksum = some checksum) :
    some checksum ∈ dataHandles generateUuid generated partitions := by
  induction partitions generalizing generated with
  | nil => exact absurd hmem List.not_mem_nil
  | cons first partitions ih =>
    rw [dataHandles_cons]
    rcases List.mem_cons.mp hmem with rfl | htail
    · rw [hchecksum]
      exact List.mem_cons_self
    · exact List.mem_cons_of_mem _ (ih htail)

/-- **The data handles are distinct exactly if no checksum is repeated**, where the uuids are
and none of them is a checksum. -/
theorem nodup_dataHandles_iff
    (hdistinct : Set.InjOn generateUuid (Set.Iio (generated + partitions.length)))
    (hother : ∀ request ∈ partitions, ∀ n, n < generated + partitions.length →
      request.checksum ≠ some (generateUuid n)) :
    (dataHandles generateUuid generated partitions).Nodup ↔
      (partitions.filterMap fun request => request.checksum).Nodup := by
  induction partitions generalizing generated with
  | nil => exact iff_of_true List.nodup_nil List.nodup_nil
  | cons request partitions ih =>
    have hlength : generated + (request :: partitions).length =
        generated + 1 + partitions.length := by
      rw [List.length_cons]
      omega
    rw [hlength] at hdistinct hother
    have htail := ih hdistinct fun request' hmem => hother request' (List.mem_cons_of_mem _ hmem)
    rw [dataHandles_cons, List.nodup_cons, htail]
    cases hchecksum : request.checksum with
    | none =>
      rw [List.filterMap_cons_none hchecksum]
      apply and_iff_right
      intro hmem
      rcases mem_dataHandles hmem with ⟨request', hmem', -, heq⟩ | ⟨n, hfirst, hlast, heq⟩
      · exact hother request' (List.mem_cons_of_mem _ hmem') generated (by omega) heq.symm
      · have hsame : generated = n := by
          apply hdistinct
          · exact Set.mem_Iio.mpr (by omega)
          · exact Set.mem_Iio.mpr hlast
          · exact Option.some.inj heq
        omega
    | some checksum =>
      rw [List.filterMap_cons_some hchecksum, List.nodup_cons]
      apply and_congr_left'
      apply not_congr
      constructor
      · intro hmem
        rcases mem_dataHandles hmem with ⟨request', hmem', -, heq⟩ | ⟨n, -, hlast, heq⟩
        · exact List.mem_filterMap.mpr ⟨request', hmem', heq.symm⟩
        · refine absurd ?_ (hother request List.mem_cons_self n hlast)
          rw [hchecksum]
          exact heq
      · intro hmem
        obtain ⟨request', hmem', heq⟩ := List.mem_filterMap.mp hmem
        exact checksum_mem_dataHandles hmem' heq

end Upload

/-! ## Steps and runs -/

section Runs

variable {generateUuid : ℕ → List Char} {s s' : Operation} {event : Event}

/-- A step that makes no upload and no callback. -/
structure Silent (s s' : Operation) : Prop where
  publicationId_eq : s'.publicationId = s.publicationId
  partitions_eq : s'.partitions = s.partitions
  phase_eq : s'.phase = s.phase
  uploads_eq : s'.uploads = s.uploads
  callbacks_eq : s'.callbacks = s.callbacks
  generated_le : s.generated ≤ s'.generated

/-- What a step can do: end the operation with a response, upload once the clients are
initialised, or neither. -/
theorem step_cases (h : step generateUuid s event = some s') :
    (s.phase ≠ .ended ∧ ∃ response, s' = finish s response) ∨
      (s.phase = .initialising ∧ s' = upload generateUuid s) ∨ Silent s s' := by
  cases event with
  | initialised apiError =>
    unfold step at h
    cases hphase : s.phase with
    | initialising =>
      rw [hphase] at h
      cases apiError with
      | some error =>
        left
        exact ⟨Phase.noConfusion, _, (Option.some.inj h).symm⟩
      | none =>
        dsimp only at h
        split at h
        · left
          exact ⟨Phase.noConfusion, _, (Option.some.inj h).symm⟩
        · right
          left
          exact ⟨rfl, (Option.some.inj h).symm⟩
    | uploading =>
      rw [hphase] at h
      cases h
    | ended =>
      rw [hphase] at h
      cases h
  | answered response =>
    unfold step at h
    cases hphase : s.phase with
    | uploading =>
      rw [hphase] at h
      left
      exact ⟨Phase.noConfusion, response, (Option.some.inj h).symm⟩
    | initialising =>
      rw [hphase] at h
      cases h
    | ended =>
      rw [hphase] at h
      cases h
  | returns =>
    unfold step at h
    dsimp only at h
    split at h
    · cases h
      right
      right
      exact ⟨rfl, rfl, rfl, rfl, rfl, le_rfl⟩
    · cases h
  | cancelOperation =>
    unfold step at h
    dsimp only at h
    split at h
    · cases h
    · cases h
      right
      right
      exact ⟨rfl, rfl, rfl, rfl, rfl, le_rfl⟩
  | others uuids tokenList =>
    cases h
    right
    right
    exact ⟨rfl, rfl, rfl, rfl, rfl, Nat.le_add_right _ _⟩

/-- How many uploads and callbacks an operation has made, by where it is. -/
def OneUpload (s : Operation) : Prop :=
  match s.phase with
  | .initialising => s.uploads = [] ∧ s.callbacks = []
  | .uploading => s.uploads.length = 1 ∧ s.callbacks = []
  | .ended => s.uploads.length ≤ 1 ∧ s.callbacks.length = 1

variable {publicationId : List Char} {partitions : List PublishPartitionDataRequest}

/-- What the uploads of an operation are. -/
structure Uploads (generateUuid : ℕ → List Char) (first : ℕ) (publicationId : List Char)
    (partitions : List PublishPartitionDataRequest) (s : Operation) : Prop where
  publicationId_eq : s.publicationId = publicationId
  partitions_eq : s.partitions = partitions
  first_le : first ≤ s.generated
  checked : s.phase ≠ .ended → check publicationId partitions = none
  uploads : ∀ upload ∈ s.uploads, check publicationId partitions = none ∧
    ∃ generated, first ≤ generated ∧ generated + partitions.length ≤ s.generated ∧
      upload = uploadPartitions generateUuid generated publicationId partitions

/-- **Step.** -/
theorem oneUpload_step (hs : OneUpload s) (h : step generateUuid s event = some s') :
    OneUpload s' := by
  unfold OneUpload at hs
  rcases step_cases h with ⟨hphase, response, rfl⟩ | ⟨hphase, rfl⟩ | hsilent
  · show s.uploads.length ≤ 1 ∧ (s.callbacks ++ [response]).length = 1
    cases hcase : s.phase with
    | ended => exact absurd hcase hphase
    | initialising =>
      rw [hcase] at hs
      simp [hs.1, hs.2]
    | uploading =>
      rw [hcase] at hs
      simp [hs.1, hs.2]
  · rw [hphase] at hs
    show (s.uploads ++ [_]).length = 1 ∧ s.callbacks = []
    refine ⟨?_, hs.2⟩
    rw [hs.1]
    rfl
  · unfold OneUpload
    rw [hsilent.phase_eq, hsilent.uploads_eq, hsilent.callbacks_eq]
    exact hs

/-- **Step.** -/
theorem uploads_step {first : ℕ} (hs : Uploads generateUuid first publicationId partitions s)
    (h : step generateUuid s event = some s') :
    Uploads generateUuid first publicationId partitions s' := by
  rcases step_cases h with ⟨hphase, response, rfl⟩ | ⟨hphase, rfl⟩ | hsilent
  · refine ⟨hs.publicationId_eq, hs.partitions_eq, hs.first_le, ?_, hs.uploads⟩
    intro hended
    exact absurd rfl hended
  · have hchecked : check publicationId partitions = none := by
      apply hs.checked
      rw [hphase]
      exact Phase.noConfusion
    have hgenerated : (upload generateUuid s).generated = s.generated + partitions.length := by
      rw [← hs.partitions_eq]
      rfl
    refine ⟨hs.publicationId_eq, hs.partitions_eq, ?_, fun _ => hchecked, ?_⟩
    · rw [hgenerated]
      exact Nat.le_add_right_of_le hs.first_le
    · intro u hu
      rw [hgenerated]
      rcases List.mem_append.mp hu with hold | hnew
      · obtain ⟨hnone, generated, hfirst, hlast, heq⟩ := hs.uploads u hold
        exact ⟨hnone, generated, hfirst, Nat.le_add_right_of_le hlast, heq⟩
      · refine ⟨hchecked, s.generated, hs.first_le, le_rfl, ?_⟩
        rw [List.mem_singleton.mp hnew, hs.publicationId_eq, hs.partitions_eq]
  · refine ⟨hsilent.publicationId_eq.trans hs.publicationId_eq,
      hsilent.partitions_eq.trans hs.partitions_eq, hs.first_le.trans hsilent.generated_le, ?_, ?_⟩
    · rw [hsilent.phase_eq]
      exact hs.checked
    · intro u hu
      rw [hsilent.uploads_eq] at hu
      obtain ⟨hnone, generated, hfirst, hlast, heq⟩ := hs.uploads u hu
      exact ⟨hnone, generated, hfirst, hlast.trans hsilent.generated_le, heq⟩

variable {id first : ℕ} {tokenList : List ℕ} {events : List Event}

/-- **Run.** Every operation makes one upload and one callback at most, and one of each unless
it fails before the upload. -/
theorem oneUpload_runFrom {optionalId : Option (List Char)}
    (hrun : runFrom (step generateUuid)
      (publishToBatch id optionalId partitions tokenList first) events = some s') :
    OneUpload s' := by
  refine invariant_of_steps OneUpload (fun s event s' hs h => oneUpload_step hs h) hrun ?_
  unfold publishToBatch
  dsimp only
  cases check (optionalId.getD []) partitions with
  | some error => exact ⟨Nat.zero_le 1, rfl⟩
  | none => exact ⟨rfl, rfl⟩

/-- **Run.** What is uploaded has passed the checks, and is made of uuids generated after the
call. -/
theorem uploads_runFrom (hrun : runFrom (step generateUuid)
      (publishToBatch id (some publicationId) partitions tokenList first) events = some s') :
    Uploads generateUuid first publicationId partitions s' := by
  refine invariant_of_steps (Uploads generateUuid first publicationId partitions)
    (fun s event s' hs h => uploads_step hs h) hrun ?_
  unfold publishToBatch
  dsimp only [Option.getD_some]
  cases hcheck : check publicationId partitions with
  | some error =>
    refine ⟨rfl, rfl, le_rfl, ?_, ?_⟩
    · intro hended
      exact absurd rfl hended
    · intro u hu
      exact absurd hu List.not_mem_nil
  | none =>
    refine ⟨rfl, rfl, le_rfl, fun _ => hcheck, ?_⟩
    intro u hu
    exact absurd hu List.not_mem_nil

/-- A list that is not taken is answered with its error, and nothing is uploaded for it. -/
theorem rejected_runFrom {optionalId : Option (List Char)} {error : ApiError}
    (hcheck : check (optionalId.getD []) partitions = some error)
    (hrun : runFrom (step generateUuid)
      (publishToBatch id optionalId partitions tokenList first) events = some s') :
    s'.uploads = [] ∧ s'.callbacks = [.error error] := by
  have hended : s'.phase = .ended ∧ s'.uploads = [] ∧ s'.callbacks = [.error error] := by
    refine invariant_of_steps
      (fun s => s.phase = .ended ∧ s.uploads = [] ∧ s.callbacks = [.error error])
      (fun s event s' hs h => ?_) hrun ?_
    · rcases step_cases h with ⟨hphase, -⟩ | ⟨hphase, -⟩ | hsilent
      · exact absurd hs.1 hphase
      · rw [hs.1] at hphase
        cases hphase
      · rw [hsilent.phase_eq, hsilent.uploads_eq, hsilent.callbacks_eq]
        exact hs
    · unfold publishToBatch
      rw [hcheck]
      exact ⟨rfl, rfl, rfl⟩
  exact hended.2

end Runs

/-! ## Faithful uploads -/

/-- An upload is faithful to the requests it was made for: they could be published; there is an
entry for each, in order; the data handles are distinct uuids, none of the `first` ones that
were generated before the call. -/
structure Faithful (generateUuid : ℕ → List Char) (first : ℕ)
    (partitions : List PublishPartitionDataRequest) (upload : Upload) : Prop where
  acceptable : Acceptable partitions
  layer : ∀ request ∈ partitions, upload.layerId = request.layerId
  entries : (upload.partitions.map fun partition => partition.partition) =
    partitions.map fun request => request.partitionId
  fresh : ∀ partition ∈ upload.partitions, ∃ n, first ≤ n ∧
    partition.dataHandle = some (generateUuid n)
  distinct : (upload.partitions.map fun partition => partition.dataHandle).Nodup

section Claim

variable {generateUuid : ℕ → List Char} {first generated : ℕ} {publicationId : List Char}
  {partitions : List PublishPartitionDataRequest}

theorem layerId_uploadPartitions (h : Acceptable partitions)
    {request : PublishPartitionDataRequest} (hrequest : request ∈ partitions) :
    (uploadPartitions generateUuid generated publicationId partitions).layerId =
      request.layerId := by
  obtain ⟨hne, layerId, -, hall⟩ := h
  obtain ⟨head, rest, rfl⟩ := List.exists_cons_of_ne_nil hne
  show head.layerId = request.layerId
  rw [(hall head List.mem_cons_self).1, (hall request hrequest).1]

theorem entries_uploadPartitions (h : Acceptable partitions) :
    ((uploadPartitions generateUuid generated publicationId partitions).partitions.map
        fun partition => partition.partition) =
      partitions.map fun request => request.partitionId := by
  refine map_partition_pubPartitionList.trans ?_
  apply List.map_congr_left
  intro request hrequest
  obtain ⟨-, layerId, -, hall⟩ := h
  obtain ⟨-, -, partitionId, -, hpartition⟩ := hall request hrequest
  rw [hpartition]
  rfl

/-- Without checksums the upload of an acceptable list is faithful. -/
theorem faithful_uploadPartitions (h : Acceptable partitions)
    (hchecksum : ∀ request ∈ partitions, request.checksum = none) (hfirst : first ≤ generated)
    (hdistinct : Set.InjOn generateUuid (Set.Iio (generated + partitions.length))) :
    Faithful generateUuid first partitions
      (uploadPartitions generateUuid generated publicationId partitions) := by
  have hnone : partitions.filterMap (fun request => request.checksum) = [] := by
    rw [List.filterMap_eq_nil_iff]
    exact hchecksum
  refine ⟨h, fun _ hrequest => layerId_uploadPartitions h hrequest, entries_uploadPartitions h,
    ?_, ?_⟩
  · intro partition hpartition
    rcases mem_dataHandles (List.mem_map_of_mem hpartition) with
      ⟨request, hrequest, hsome, -⟩ | ⟨n, hn, -, heq⟩
    · exact absurd (hchecksum request hrequest) hsome
    · exact ⟨n, hfirst.trans hn, heq⟩
  · apply (nodup_dataHandles_iff hdistinct ?_).mpr
    · rw [hnone]
      exact List.nodup_nil
    · intro request hrequest n _
      rw [hchecksum request hrequest]
      exact (Option.some_ne_none _).symm

/-- Uuids that are distinct, and none of them a given checksum. -/
def otherUuid (checksum : List Char) (n : ℕ) : List Char :=
  checksum ++ '-' :: Nat.toDigits 10 n

theorem otherUuid_injective (checksum : List Char) : Function.Injective (otherUuid checksum) := by
  intro m n h
  have htail : '-' :: Nat.toDigits 10 m = '-' :: Nat.toDigits 10 n := List.append_cancel_left h
  exact toDigits_injective (List.cons.inj htail).2

theorem ne_otherUuid (checksum : List Char) (n : ℕ) : checksum ≠ otherUuid checksum n := by
  intro h
  have hnil : '-' :: Nat.toDigits 10 n = [] := by
    apply List.append_right_eq_self.mp
    exact h.symm
  exact List.cons_ne_nil _ _ hnil

/-- The operation for a list that is taken uploads as soon as the clients are initialised. -/
theorem runFrom_initialised (hcheck : check publicationId partitions = none) (id : ℕ)
    (tokenList : List ℕ) : runFrom (step generateUuid)
      (publishToBatch id (some publicationId) partitions tokenList first) [.initialised none] =
    some (upload generateUuid
      ⟨id, publicationId, partitions, .initialising, false, true, [], [], tokenList, first⟩) := by
  unfold publishToBatch
  dsimp only [Option.getD_some]
  rw [hcheck]
  rfl

/-- **Publication to a batch.** Whatever happens, every upload is faithful to the list of
requests: met unless a list is taken of which a request has a checksum. -/
theorem uploads_faithful_iff (hid : publicationId ≠ []) :
    (∀ (generateUuid : ℕ → List Char) (id : ℕ) (tokenList : List ℕ) (first : ℕ)
      (events : List Event) (s' : Operation),
      runFrom (step generateUuid)
        (publishToBatch id (some publicationId) partitions tokenList first) events = some s' →
      Set.InjOn generateUuid (Set.Iio s'.generated) →
      ∀ upload ∈ s'.uploads, Faithful generateUuid first partitions upload) ↔
    (Acceptable partitions → ∀ request ∈ partitions, request.checksum = none) := by
  constructor
  · intro h hacceptable request hrequest
    by_contra hne
    obtain ⟨checksum, hchecksum⟩ := Option.ne_none_iff_exists'.mp hne
    have hcheck : check publicationId partitions = none :=
      (check_eq_none_iff hid).mpr hacceptable
    have hfaithful := h (otherUuid checksum) 0 [] 0 [.initialised none] _
      (runFrom_initialised hcheck 0 []) (otherUuid_injective checksum).injOn _
      List.mem_cons_self
    -- the handle of the request is its checksum, which is not generated
    have hmem : some checksum ∈ dataHandles (otherUuid checksum) 0 partitions :=
      checksum_mem_dataHandles hrequest hchecksum
    obtain ⟨partition, hpartition, hhandle⟩ := List.mem_map.mp hmem
    obtain ⟨n, -, hn⟩ := hfaithful.fresh partition hpartition
    exact ne_otherUuid checksum n (Option.some.inj (hhandle.symm.trans hn))
  · intro h generateUuid id tokenList first events s' hrun hdistinct u hu
    obtain ⟨hcheck, generated, hfirst, hlast, rfl⟩ := (uploads_runFrom hrun).uploads u hu
    have hacceptable : Acceptable partitions := (check_eq_none_iff hid).mp hcheck
    apply faithful_uploadPartitions hacceptable (h hacceptable) hfirst
    apply hdistinct.mono
    intro n hn
    exact lt_of_lt_of_le hn hlast

end Claim

/-- Two requests for partitions of one layer, which carry the checksums. -/
def twoRequests (checksum₁ checksum₂ : Option (List Char)) : List PublishPartitionDataRequest :=
  [⟨none, ['l'], some ['1'], none, checksum₁⟩, ⟨none, ['l'], some ['2'], none, checksum₂⟩]

theorem check_twoRequests (checksum₁ checksum₂ : Option (List Char)) :
    check ['p'] (twoRequests checksum₁ checksum₂) = none :=
  rfl

theorem uploads_faithful_iff_twoRequests : Faithful (otherUuid []) 3 (twoRequests none none)
    (uploadPartitions (otherUuid []) 3 ['p'] (twoRequests none none)) := by
  have hid : ['p'] ≠ [] := List.cons_ne_nil 'p' []
  refine (uploads_faithful_iff hid).mpr ?_ (otherUuid []) 1 [] 3 [.initialised none] _
    (runFrom_initialised (check_twoRequests none none) 1 []) (otherUuid_injective []).injOn _
    List.mem_cons_self
  intro _ request hrequest
  rcases List.mem_cons.mp hrequest with rfl | hrest
  · rfl
  · rw [List.mem_singleton.mp hrest]

/-- Two requests with one checksum share the data handle. -/
theorem not_uploads_faithful :
    (runFrom (step (otherUuid []))
      (publishToBatch 1 (some ['p']) (twoRequests (some ['c']) (some ['c'])) [] 0)
      [.initialised none]).map (fun s => s.uploads.map fun upload => upload.partitions) =
        some [[⟨some ['1'], some ['c']⟩, ⟨some ['2'], some ['c']⟩]] ∧
      ¬ ∀ (partitions : List PublishPartitionDataRequest) (id : ℕ) (tokenList : List ℕ)
        (first : ℕ) (events : List Event) (s' : Operation),
        runFrom (step (otherUuid []))
          (publishToBatch id (some ['p']) partitions tokenList first) events = some s' →
        ∀ upload ∈ s'.uploads, Faithful (otherUuid []) first partitions upload := by
  refine ⟨rfl, ?_⟩
  intro h
  have hfaithful := h (twoRequests (some ['c']) (some ['c'])) 1 [] 0 [.initialised none] _
    (runFrom_initialised (check_twoRequests _ _) 1 []) _ List.mem_cons_self
  have hdistinct : [some ['c'], some ['c']].Nodup := hfaithful.distinct
  exact (List.nodup_cons.mp hdistinct).1 List.mem_cons_self

end OlpEdgeSdk.Analysis.VolatileBatches

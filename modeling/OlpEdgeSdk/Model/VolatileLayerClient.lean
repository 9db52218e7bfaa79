import OlpEdgeSdk.Model.VersionedLayerClient

/-!
# Publishing to a batch of a volatile layer

`PublishToBatch` of the volatile layer client checks the whole list of requests, and then runs
`InitApiClients` and the upload of the partitions, each through `ExecuteOrCancelled`.
`InitApiClients` calls its callback once at most, with an error or without. The uuids are those
that `GenerateUuid` returns one after the other; other operations of the client can take some of
them, and change the list of tokens, between the steps of this one.

SOURCE: olp-cpp-sdk-dataservice-write/src/VolatileLayerClientImpl.cpp
-/

set_option autoImplicit false

namespace OlpEdgeSdk.Model.VolatileLayerClient

open OlpEdgeSdk.Base

/-! ## Requests -/

/-- SOURCE: PublishPartitionDataRequest.h:193-201 -/
structure PublishPartitionDataRequest where
  data : Data
  layerId : List Char
  partitionId : Option (List Char)
  billingTag : Option (List Char)
  checksum : Option (List Char)
deriving DecidableEq

/-- What `PublishToBatch` sets of a `PublishPartition`. -/
structure PublishPartition where
  partition : Option (List Char)
  dataHandle : Option (List Char)
deriving DecidableEq, Repr

/-- A call of `UploadPartitions`. -/
structure Upload where
  partitions : List PublishPartition
  publicationId : List Char
  layerId : List Char
  billingTag : Option (List Char)
deriving DecidableEq, Repr

/-! ## The checks -/

/-- SOURCE: VolatileLayerClientImpl.cpp:643-644 -/
def missingId : ApiError :=
  .ofCode .invalidArgument "Invalid publication - missing ID".toList true

/-- SOURCE: VolatileLayerClientImpl.cpp:650-652 -/
def emptyList : ApiError :=
  .ofCode .invalidArgument "PublishPartitionDataRequest list provided is empty".toList true

/-- SOURCE: VolatileLayerClientImpl.cpp:661-665 -/
def otherLayer : ApiError :=
  .ofCode .invalidArgument
    ("A PublishPartitionDataRequest provided does not specify a layer, or ".toList ++
      "it is different from other layers in the list.".toList) true

/-- SOURCE: VolatileLayerClientImpl.cpp:670-674 -/
def containsData : ApiError :=
  .ofCode .invalidArgument
    ("PublishPartitionDataRequest contains data. This request is for ".toList ++
      "publishing metadata only, please see the documentation.".toList) true

/-- SOURCE: VolatileLayerClientImpl.cpp:679-682 -/
def missingPartitionId : ApiError :=
  .ofCode .invalidArgument
    ("A PublishPartitionDataRequest in the list ".toList ++
      "does not specify a PartitionId".toList) true

/-- The body of the loop over the requests: the error for a request, if there is one.
SOURCE: VolatileLayerClientImpl.cpp:659-684 -/
def checkRequest (firstLayerId : List Char) (partition : PublishPartitionDataRequest) :
    Option ApiError :=
  if partition.layerId = [] ∨ partition.layerId ≠ firstLayerId then some otherLayer
  else if partition.data ≠ none then some containsData
  else if partition.partitionId = none ∨ partition.partitionId = some [] then
    some missingPartitionId
  else none

/-- The checks of `PublishToBatch`: the error of the first one that fails.
SOURCE: VolatileLayerClientImpl.cpp:641-685 -/
def check (publicationId : List Char) (partitions : List PublishPartitionDataRequest) :
    Option ApiError :=
  if publicationId = [] then some missingId
  else
    match partitions with
    | [] => some emptyList
    | first :: _ => partitions.findSome? (checkRequest first.layerId)

/-! ## The upload -/

/-- The partition that is uploaded for a request, with a uuid generated for it.
SOURCE: VolatileLayerClientImpl.cpp:710-717 -/
def pubPartition (uuid : List Char) (partitionRequest : PublishPartitionDataRequest) :
    PublishPartition :=
  let pubPartition : PublishPartition :=
    { partition := some (partitionRequest.partitionId.getD []), dataHandle := some uuid }
  match partitionRequest.checksum with
  | none => pubPartition
  | some checksum => { pubPartition with dataHandle := some checksum }

variable (generateUuid : ℕ → List Char)

/-- The partitions of a list of requests; so many uuids have been generated before.
SOURCE: VolatileLayerClientImpl.cpp:708-718 -/
def pubPartitionList : ℕ → List PublishPartitionDataRequest → List PublishPartition
  | _, [] => []
  | generated, partitionRequest :: partitions =>
    pubPartition (generateUuid generated) partitionRequest ::
      pubPartitionList (generated + 1) partitions

/-- What `UploadPartitions` is called with.
SOURCE: VolatileLayerClientImpl.cpp:656-657, 720-726 -/
def uploadPartitions (generated : ℕ) (publicationId : List Char)
    (partitions : List PublishPartitionDataRequest) : Upload where
  partitions := pubPartitionList generateUuid generated partitions
  publicationId := publicationId
  layerId := (partitions.head?.map fun first => first.layerId).getD []
  billingTag := (partitions.head?.map fun first => first.billingTag).getD none

/-! ## The operation -/

/-- Where an operation is: in `InitApiClients`, waiting for the answer to the upload, or over. -/
inductive Phase where
  | initialising
  | uploading
  | ended
deriving DecidableEq, Repr

/-- An operation: its id and what it was called with; where it is; whether its context is
cancelled, and whether its call has not returned; the uploads it has made, and what its callback
was called with. Of what it shares with others: the ids of the tokens, and the number of uuids
that have been generated. -/
structure Operation where
  id : ℕ
  publicationId : List Char
  partitions : List PublishPartitionDataRequest
  phase : Phase
  isCancelled : Bool
  inCall : Bool
  uploads : List Upload
  callbacks : List (Response Unit)
  tokenList : List ℕ
  generated : ℕ
deriving DecidableEq

/-- What happens: the callback of `InitApiClients`, the answer to the upload, the return of the
call, a cancellation, or steps of other operations, which take some uuids. -/
inductive Event where
  | initialised (apiError : Option ApiError)
  | answered (response : Response Unit)
  | returns
  | cancelOperation
  | others (uuids : ℕ) (tokenList : List ℕ)
deriving DecidableEq

/-- The call of `PublishToBatch`, up to `InitApiClients`: a list that is not taken is answered
with the error, and the call is over without a token.
SOURCE: VolatileLayerClientImpl.cpp:637-689 -/
def publishToBatch (id : ℕ) (publicationId : Option (List Char))
    (partitions : List PublishPartitionDataRequest) (tokenList : List ℕ) (generated : ℕ) :
    Operation :=
  let operation : Operation := ⟨id, publicationId.getD [], partitions, .initialising, false, true,
    [], [], tokenList, generated⟩
  match check (publicationId.getD []) partitions with
  | some error => { operation with phase := .ended, inCall := false, callbacks := [.error error] }
  | none => operation

/-- `RemoveTask`, and then the callback.
SOURCE: VolatileLayerClientImpl.cpp:691-705, 735-739 -/
def finish (operation : Operation) (response : Response Unit) : Operation :=
  { operation with
    phase := .ended
    callbacks := operation.callbacks ++ [response]
    tokenList := VersionedLayerClient.removeTask operation.id operation.tokenList }

/-- `upload_partitions_function`.
SOURCE: VolatileLayerClientImpl.cpp:707-729 -/
def upload (operation : Operation) : Operation :=
  { operation with
    phase := .uploading
    uploads := operation.uploads ++
      [uploadPartitions generateUuid operation.generated operation.publicationId
        operation.partitions]
    generated := operation.generated + operation.partitions.length }

/-- SOURCE: VolatileLayerClientImpl.cpp:691-750 -/
def step (operation : Operation) : Event → Option Operation
  | .initialised apiError =>
    match operation.phase, apiError with
    | .initialising, some error => some (finish operation (.error error))
    | .initialising, none =>
      if operation.isCancelled then some (finish operation (.error operationCancelled))
      else some (upload generateUuid operation)
    | _, _ => none
  | .answered response =>
    match operation.phase with
    | .uploading => some (finish operation response)
    | _ => none
  | .returns =>
    if operation.inCall then
      some { operation with
        inCall := false
        tokenList := VersionedLayerClient.addTask operation.id operation.tokenList }
    else none
  | .cancelOperation =>
    -- no other code has the token before the call has returned it
    if operation.inCall then none else some { operation with isCancelled := true }
  | .others uuids tokenList =>
    some { operation with tokenList := tokenList, generated := operation.generated + uuids }

end OlpEdgeSdk.Model.VolatileLayerClient

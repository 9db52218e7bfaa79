import OlpEdgeSdk.Model.PublishingCalls

/-!
# Publishing as a transaction

What a call of a publishing client is for: after the initialisation a fixed number of requests,
each made once and only when the one before has succeeded, and then one answer to the caller. The
answer is a success iff all of them have succeeded; otherwise it is the error of the one that has
failed, a cancellation, or one of the errors with which the call refuses to go on.

`Transaction.step` takes what a call does, act by act, and stops at the first act that is not
expected. A null pointer that is dereferenced is never expected.
-/

set_option autoImplicit false

namespace OlpEdgeSdk.Interface

open OlpEdgeSdk.Base OlpEdgeSdk.Model OlpEdgeSdk.Model.Publishing

/-- A transaction: how many requests it makes, which one it makes after the answers so far, what
it returns, and the errors with which it refuses to go on. -/
structure Transaction where
  length : ℕ
  expects : List (Option (List Char)) → SubRequest → Bool
  outcome : List (Option (List Char)) → Option (List Char)
  refusals : List ApiError

/-- How far a transaction has come: the answers to its requests, a request that has not been
answered, the error of the one that has failed, an exception, or the end. -/
inductive Progress where
  | going (answers : List (Option (List Char)))
  | asking (answers : List (Option (List Char))) (request : SubRequest)
  | failed (e : ApiError)
  | threw
  | closed
deriving DecidableEq

/-- A request of the initialisation. -/
def isInit : SubRequest → Bool
  | .lookupApi _ _ | .getCatalog _ _ => true
  | _ => false

/-- The answer to a request of the transaction itself. -/
def receivedResult (answers : List (Option (List Char))) : Publishing.Result → Progress
  | .error e => .failed e
  | .ok id => .going (answers ++ [id])

/-- The answer to a request. A publication has an id, and a service is at some url. -/
def received (answers : List (Option (List Char))) :
    (request : SubRequest) → request.Answer → Progress
  | .lookupApi _ _, .error e => .failed e
  | .lookupApi _ _, .ok [] => .threw
  | .lookupApi _ _, .ok (_ :: _) => .going answers
  | .getCatalog _ _, .error e => .failed e
  | .getCatalog _ _, .ok _ => .going answers
  | .initPublication .., .ok none => .failed (.ofCode .unknown [])
  | .initPublication .., .ok (some id) => .going (answers ++ [some id])
  | .initPublication .., .error e => .failed e
  | .ingestData .., answer | .ingestSdii .., answer | .putBlob .., answer
  | .uploadPartitions .., answer | .submitPublication .., answer | .insertIndexes .., answer
  | .deleteBlob .., answer | .performUpdate .., answer => receivedResult answers answer

namespace Transaction

def step (t : Transaction) :
    Progress → Act SubRequest SubRequest.Answer Ending → Option Progress
  | .going answers, .asked request =>
    if (isInit request ∧ answers = []) ∨ t.expects answers request then
      some (.asking answers request)
    else none
  | .asking answers request, .answered op answer =>
    if op = request then some (received answers op answer) else none
  | .going answers, .replied (.called (.ok id)) =>
    if answers.length = t.length ∧ id = t.outcome answers then some .closed else none
  | .going answers, .replied (.called (.error e)) =>
    if answers.length < t.length ∧ (e = operationCancelled ∨ e ∈ t.refusals) then some .closed
    else none
  | .failed e, .replied (.called (.error e')) => if e' = e then some .closed else none
  | .threw, .replied .thrown => some .closed
  | _, _ => none

end Transaction

/-! ## The transactions of the calls -/

open VersionedLayerClient (invalidHrn)

/-- A call with arguments that it does not take. -/
def refused (message : String) : Transaction where
  length := 1
  expects _ _ := false
  outcome _ := none
  refusals := [.ofCode .invalidArgument message.toList]

/-- The data is handed to the ingest service as it is. -/
def ingestion (request : PublishDataRequest) (data : List UInt8) : Transaction where
  length := 1
  expects
    | [], .ingestData _ layerId contentType data' traceId billingTag checksum =>
      layerId = request.layerId ∧ contentType ≠ [] ∧ data' = data ∧
        traceId = request.traceId ∧ billingTag = request.billingTag ∧ checksum = request.checksum
    | _, _ => false
  outcome answers := answers.getLast?.getD none
  refusals := [invalidHrn, .ofCode .invalidArgument StreamLayerClientImpl.layerNotFound]

/-- A publication of one partition: it is begun, the data is stored under the handle, the
partition is registered with that handle, and the publication is submitted. -/
def publication (request : PublishDataRequest) (data : List UInt8)
    (partitionId dataHandle : List Char) : Transaction where
  length := 4
  expects
    | [], .initPublication _ layerIds billingTag =>
      layerIds = [request.layerId] ∧ billingTag = request.billingTag
    | [some _], .putBlob _ layerId contentType handle data' billingTag =>
      layerId = request.layerId ∧ contentType ≠ [] ∧ handle = dataHandle ∧ data' = data ∧
        billingTag = request.billingTag
    | [some id, _], .uploadPartitions _ partitions publicationId layerId billingTag =>
      partitions = [(partitionId, dataHandle)] ∧ publicationId = id ∧
        layerId = request.layerId ∧ billingTag = request.billingTag
    | [some id, _, _], .submitPublication _ publicationId billingTag =>
      publicationId = id ∧ billingTag = request.billingTag
    | _, _ => false
  outcome _ := some partitionId
  refusals := [invalidHrn,
    .ofCode .invalidArgument (StreamLayerClientImpl.layerIdNotFound request.layerId)]

def sdiiIngestion (request : StreamLayerClientImpl.PublishSdiiRequest) (messages : List UInt8) :
    Transaction where
  length := 1
  expects
    | [], .ingestSdii _ layerId messages' traceId billingTag checksum =>
      layerId = request.layerId ∧ messages' = messages ∧ traceId = request.traceId ∧
        billingTag = request.billingTag ∧ checksum = request.checksum
    | _, _ => false
  outcome answers := answers.getLast?.getD none
  refusals := [invalidHrn]

/-- The data is stored under the handle, and then the index gets an entry with that handle. -/
def indexing (request : IndexLayerClientImpl.PublishIndexRequest) (data : List UInt8)
    (dataHandle : List Char) : Transaction where
  length := 2
  expects
    | [], .putBlob _ layerId contentType handle data' billingTag =>
      layerId = request.layerId ∧ contentType ≠ [] ∧ handle = dataHandle ∧ data' = data ∧
        billingTag = request.billingTag
    | [_], .insertIndexes _ index layerId billingTag =>
      index = { request.index with id := dataHandle } ∧ layerId = request.layerId ∧
        billingTag = request.billingTag
    | _, _ => false
  outcome _ := some dataHandle
  refusals := [invalidHrn,
    .ofCode .invalidArgument (IndexLayerClientImpl.layerIdNotFound request.layerId)]

def deletion (layerId indexId : List Char) : Transaction where
  length := 1
  expects
    | [], .deleteBlob _ layerId' dataHandle billingTag =>
      layerId' = layerId ∧ dataHandle = indexId ∧ billingTag = none
    | _, _ => false
  outcome _ := none
  refusals := [invalidHrn]

def indexUpdate (request : WriteModel.UpdateIndexRequest) : Transaction where
  length := 1
  expects
    | [], .performUpdate _ request' billingTag => request' = request ∧ billingTag = none
    | _, _ => false
  outcome _ := none
  refusals := [invalidHrn]

/-- What a call is for. -/
def transaction : (client : Client) → client.Call → Transaction
  | .stream, .publishData request partitionId dataHandle =>
    match request.data with
    | none => refused "Request data null."
    | some data =>
      if data.length ≤ StreamLayerClientImpl.kTwentyMib then ingestion request data
      else publication request data partitionId dataHandle
  | .stream, .publishSdii request =>
    match request.sdiiMessageList with
    | none => refused "Request sdii message list null."
    | some messages =>
      if request.layerId = [] then refused "Request layer id empty."
      else sdiiIngestion request messages
  | .index, .publishIndex request dataHandle =>
    match request.data with
    | none => refused "Request data empty."
    | some data =>
      if request.layerId = [] then refused "Request layer Id empty."
      else indexing request data dataHandle
  | .index, .deleteIndexData layerId indexId =>
    if layerId = [] ∨ indexId = [] then refused "Request layer ID or Index Id is not defined."
    else deletion layerId indexId
  | .index, .updateIndex request => indexUpdate request

end OlpEdgeSdk.Interface

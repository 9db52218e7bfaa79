import Mathlib.Data.Char
import Mathlib.Data.List.Lex
import OlpEdgeSdk.Base.SortedMap
import OlpEdgeSdk.Model.HRN

/-!
# The queue of the stream layer client

`StreamLayerClientImpl` keeps the requests to publish in the key-value cache: each under a
uuid of its own, and the uuids, each followed by a comma, in one text under a key of the
catalog. Every function here holds `cache_mutex_` for the part that touches the cache.

The cache answers a `Get` with the object it was given or, once it has only the text, with
what the decoder makes of it; `Source` says which. No result (`none`) is an exception or the
null pointer: a cast to another type than the one stored, or no cache where one is needed.

SOURCE: olp-cpp-sdk-dataservice-write/src/StreamLayerClientImpl.cpp
-/

set_option autoImplicit false

namespace OlpEdgeSdk.Model

open OlpEdgeSdk.Base

/-- SOURCE: PublishDataRequest.h:189-197 -/
structure PublishDataRequest where
  data : Option (List UInt8)
  layerId : List Char
  traceId : Option (List Char)
  billingTag : Option (List Char)
  checksum : Option (List Char)
deriving DecidableEq

namespace StreamLayerClientImpl

/-- The serializer and the parser of requests. -/
structure Codec where
  serialize : PublishDataRequest → List Char
  parse : List Char → PublishDataRequest

/-- What a `boost::any` of the queue holds. -/
inductive Any where
  | text (s : List Char)
  | request (r : PublishDataRequest)
deriving DecidableEq

/-- What is stored under a key: the object, and the text it is encoded as. -/
structure CacheEntry where
  value : Any
  encoded : List Char
deriving DecidableEq

/-- What the cache has when it is asked: the object, or its text alone. -/
inductive Source where
  | object
  | encoded
deriving DecidableEq, Repr

abbrev KeyValueCache : Type := SortedMap (List Char) CacheEntry

/-- `Get`, with the decoder of the caller. -/
def get (cache : KeyValueCache) (source : Source) (key : List Char)
    (decoder : List Char → Any) : Option Any :=
  (cache.find key).map fun entry =>
    match source with
    | .object => entry.value
    | .encoded => decoder entry.encoded

/-- A uuid as it is printed: hexadecimal digits in groups. -/
structure Uuid where
  text : List Char
  chars : ∀ c ∈ text, c.isDigit = true ∨ ('a' ≤ c ∧ c ≤ 'f') ∨ c = '-'

/-- What the queue uses of the client. -/
structure Client where
  catalog : HRN
  cache : Option KeyValueCache
  maximumRequests : Option ℕ

/-- `GetUuidListKey`.
SOURCE: StreamLayerClientImpl.cpp:230-235 -/
def uuidListKey (c : Client) : List Char :=
  c.catalog.toCatalogHRNString ++ "-stream-queue-cache".toList

/-- The `Get` of the uuid list and its cast; an empty `any` is an empty list of uuids. -/
def getUuidList (cache : KeyValueCache) (source : Source) (key : List Char) :
    Option (Option (List Char)) :=
  match get cache source key .text with
  | none => some none
  | some (.text s) => some (some s)
  | some (.request _) => none

/-- SOURCE: StreamLayerClientImpl.cpp:237-249 -/
def queueSize (c : Client) (source : Source) : Option ℕ := do
  let cache ← c.cache
  match ← getUuidList cache source (uuidListKey c) with
  | some uuidList => return uuidList.count ','
  | none => return 0

/-- The part of `Queue` before its critical section: the text it returns if the request is
refused.
SOURCE: StreamLayerClientImpl.cpp:263-284 -/
def queueRefusal (c : Client) (request : PublishDataRequest) (sizeSource : Source) :
    Option (Option String) :=
  if c.cache.isNone then return some "No cache provided to StreamLayerClient"
  else if request.data.isNone then return some "PublishDataRequest does not contain any Data"
  else if request.layerId = [] then return some "PublishDataRequest does not contain a Layer ID"
  else
    match c.maximumRequests with
    | some maximumRequests => do
      let size ← queueSize c sizeSource
      if ¬ size < maximumRequests then return some "Maximum number of requests has reached"
      else return none
    | none => return none

/-- The critical section of `Queue`.
SOURCE: StreamLayerClientImpl.cpp:287-305 -/
def append (codec : Codec) (c : Client) (request : PublishDataRequest) (publishDataKey : Uuid)
    (listSource : Source) : Option Client := do
  let cache ← c.cache
  let cache := cache.insert publishDataKey.text ⟨.request request, codec.serialize request⟩
  let uuidList := (← getUuidList cache listSource (uuidListKey c)).getD []
  let uuidList := uuidList ++ publishDataKey.text ++ [',']
  return { c with cache := some (cache.insert (uuidListKey c) ⟨.text uuidList, uuidList⟩) }

/-- `Queue` without the events of auto-flush: the client afterwards and the error it returns.
SOURCE: StreamLayerClientImpl.cpp:261-308 -/
def queue (codec : Codec) (c : Client) (request : PublishDataRequest) (publishDataKey : Uuid)
    (sizeSource listSource : Source) : Option (Client × Option String) := do
  match ← queueRefusal c request sizeSource with
  | some error => return (c, some error)
  | none => return (← append codec c request publishDataKey listSource, none)

/-- `PopFromQueue`; an entry that cannot be read has no source.
SOURCE: StreamLayerClientImpl.cpp:310-347 -/
def popFromQueue (codec : Codec) (c : Client) (listSource : Source)
    (entrySource : Option Source) : Option (Client × Option PublishDataRequest) := do
  let cache ← c.cache
  match ← getUuidList cache listSource (uuidListKey c) with
  | none => return (c, none)
  | some uuidList =>
    match uuidList.span (· ≠ ',') with
    | (_, []) => return (c, none)
    | (publishDataKey, _ :: uuidList) =>
      let publishDataAny := entrySource.bind fun source =>
        get cache source publishDataKey fun s => .request (codec.parse s)
      let cache := (cache.erase publishDataKey).insert (uuidListKey c) ⟨.text uuidList, uuidList⟩
      let c := { c with cache := some cache }
      match publishDataAny with
      | none => return (c, none)
      | some (.request request) => return (c, some request)
      | some (.text _) => none

/-! ## Calls -/

/-- A call, with the way in which the cache answers each `Get` it makes. A reliable cache
always answers. -/
inductive Call where
  | queue (request : PublishDataRequest) (publishDataKey : Uuid) (sizeSource listSource : Source)
  | popFromQueue (listSource entrySource : Source)
  | queueSize (source : Source)

inductive Answer where
  | queued (error : Option String)
  | popped (request : Option PublishDataRequest)
  | size (n : ℕ)
deriving DecidableEq

/-- One call of the client. -/
def call (codec : Codec) (c : Client) : Call → Option (Client × Answer)
  | .queue request publishDataKey sizeSource listSource =>
    (queue codec c request publishDataKey sizeSource listSource).map fun r => (r.1, .queued r.2)
  | .popFromQueue listSource entrySource =>
    (popFromQueue codec c listSource (some entrySource)).map fun r => (r.1, .popped r.2)
  | .queueSize source => (queueSize c source).map fun n => (c, .size n)

/-! ## Concurrent calls -/

/-- The client and the calls of `Queue` that have passed their checks and have yet to enter the
critical section. -/
structure Callers where
  client : Client
  passed : List PublishDataRequest

/-- A critical section of some call: the test of `Queue` with what comes before it, the append
of one that has passed, or a `PopFromQueue`. -/
inductive Section where
  | test (request : PublishDataRequest) (sizeSource : Source)
  | append (i : ℕ) (publishDataKey : Uuid) (listSource : Source)
  | pop (listSource : Source) (entrySource : Option Source)

/-- SOURCE: StreamLayerClientImpl.cpp:261-347 -/
def enter (codec : Codec) (s : Callers) : Section → Option Callers
  | .test request sizeSource => do
    match ← queueRefusal s.client request sizeSource with
    | some _ => return s
    | none => return { s with passed := s.passed ++ [request] }
  | .append i publishDataKey listSource => do
    let request ← s.passed[i]?
    let client ← append codec s.client request publishDataKey listSource
    return { client := client, passed := s.passed.eraseIdx i }
  | .pop listSource entrySource => do
    let (client, _) ← popFromQueue codec s.client listSource entrySource
    return { s with client := client }

end StreamLayerClientImpl

end OlpEdgeSdk.Model

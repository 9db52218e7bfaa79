import Mathlib.Data.Int.Basic

/-!
# Requests, responses and protocols of the network layer

The data that clients hand to the network and get back. A request keeps its priority in the
range of priorities, so the type of priorities is that range.

SOURCE: NetworkRequest.h, NetworkRequest.cpp, NetworkResponse.h, Network.h, NetworkProtocol.h,
NetworkProtocol.cpp
-/

set_option autoImplicit false

namespace OlpEdgeSdk.Model

/-- SOURCE: NetworkRequest.h:57 -/
inductive HttpVerb where
  | GET
  | POST
  | HEAD
  | PUT
  | DEL
  | PATCH
deriving DecidableEq, Repr

/-- From `PriorityMin` to `PriorityMax`.
SOURCE: NetworkRequest.h:52 -/
abbrev Priority : Type := Fin 6

/-- The timestamp and the flags of a request are left out.
SOURCE: NetworkRequest.h:187-195 -/
structure NetworkRequest where
  url : List Char
  modifiedSince : ℕ
  priority : Priority
  verb : HttpVerb
  extraHeaders : List (List Char × List Char)
  content : Option (List Char)
deriving DecidableEq, Repr

namespace NetworkRequest

/-- SOURCE: NetworkRequest.cpp:61-68 -/
def setPriority (priority : ℤ) : Priority :=
  if priority < 0 then 0
  else if h : 5 < priority then 5
  else ⟨priority.toNat, by omega⟩

/-- SOURCE: NetworkRequest.cpp:27-33 -/
def new (url : List Char) (modifiedSince : ℕ) (priority : ℤ) (verb : HttpVerb) :
    NetworkRequest where
  url := url
  modifiedSince := modifiedSince
  priority := setPriority priority
  verb := verb
  extraHeaders := []
  content := none

end NetworkRequest

/-- The payload stream and the statistics are left out.
SOURCE: NetworkResponse.h:149-161 -/
structure NetworkResponse where
  id : ℤ
  cancelled : Bool
  status : ℤ
  error : List Char
  maxAge : ℤ
  expires : ℤ
  etag : List Char
  contentType : List Char
  payloadSize : ℕ
  payloadOffset : ℕ
deriving DecidableEq, Repr

namespace NetworkResponse

/-- The response of the simple cases: the other fields have their defaults.
SOURCE: NetworkResponse.cpp:48-50 -/
def simple (id status : ℤ) (error : List Char) : NetworkResponse :=
  ⟨id, false, status, error, 0, 0, [], [], 0, 0⟩

end NetworkResponse

namespace NetworkProtocol

/-- SOURCE: NetworkProtocol.h:45-56 -/
inductive ErrorCode where
  | errorNone
  | errorIo
  | errorNotReady
  | errorNoConnection
  | errorInvalidRequest
  | errorFailedBindInterface
  | errorNetworkInterfaceOptionNotImplemented
  | errorNetworkOverload
  | errorFailedSetCaCert
  | errorCaCertOptionNotImplemented
deriving DecidableEq, Repr

/-- What the callback is given when a protocol refuses a request.
SOURCE: NetworkProtocol.cpp:151-165; Network.h:71-80 -/
def handleSynchronousNetworkErrors (errorCode : ErrorCode) (requestId : ℤ) : NetworkResponse :=
  match errorCode with
  | .errorInvalidRequest => .simple requestId (-3) "Invalid Request".toList
  | .errorNoConnection => .simple requestId (-4) "Offline".toList
  | .errorIo => .simple requestId (-1) "I/O Error".toList
  | _ => .simple requestId (-8) "Unknown error".toList

end NetworkProtocol

end OlpEdgeSdk.Model

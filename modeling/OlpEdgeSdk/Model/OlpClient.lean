import OlpEdgeSdk.Model.CancellationContext
import OlpEdgeSdk.Model.Network

/-!
# Calls with retries

`CallApi` makes one request, hands it to the network handler and answers the caller once the
handler's response needs no retry. The retry callback of an attempt is a closure with the number
of the attempt, the time to wait and a weak reference to the cancellation context; the context
itself is owned by the token `CallApi` returns, and by every call into it that is under way.

A run of the system is a list of events. The handler answers an attempt once: on the thread that
is inside the context (`inside`: from the handler call itself, or from the `cancel` of its
token), or on another thread. A callback that runs inside keeps that thread busy until it is
done; another one has to wait for the mutex of the context, and so has a cancellation. The
retry condition and the backdown policy are functions. What the handler answers to its `i`-th
invocation is `responses i`, counted from one.

The user agent of the SDK is made up by the build and stands as a parameter.

SOURCE: OlpClient.cpp, OlpClientSettings.h, CancellationContext.inl
-/

set_option autoImplicit false

namespace OlpEdgeSdk.Model

open OlpEdgeSdk.Base

/-- SOURCE: HttpResponse.h:34-48 -/
structure HttpResponse where
  status : ℤ
  response : List Char
deriving DecidableEq, Repr

namespace HttpResponse

/-- SOURCE: Network.h:76; OlpClient.cpp:177-178, 224-225 -/
def cancelled : HttpResponse := ⟨-5, "Operation Cancelled.".toList⟩

/-- SOURCE: Network.h:79; OlpClient.cpp:181-182 -/
def unknownError : HttpResponse := ⟨-8, "Unknown error.".toList⟩

end HttpResponse

/-- The fields `CallApi` sets; a proxy is one text.
SOURCE: NetworkConfig.h -/
structure NetworkConfig where
  connectTimeout : ℤ
  transferTimeout : ℤ
  proxy : Option (List Char)
deriving DecidableEq, Repr

/-- SOURCE: OlpClientSettings.h:98-146 -/
structure RetrySettings where
  maxAttempts : ℤ
  timeout : ℤ
  initialBackdownPeriod : ℤ
  backdownPolicy : ℤ → ℤ
  retryCondition : HttpResponse → Bool

/-- The client with its settings. `bearer` is what the token provider returns when it is asked,
if there are authentication settings. -/
structure OlpClient where
  baseUrl : List Char
  defaultHeaders : List (List Char × List Char)
  retrySettings : RetrySettings
  proxySettings : Option (List Char)
  bearer : Option (List Char)

namespace OlpClient

/-- SOURCE: OlpClient.cpp:37-44 -/
def caseInsensitiveCompare (a b : List Char) : Bool :=
  a.map Char.toLower = b.map Char.toLower

/-- SOURCE: OlpClient.cpp:84-93 -/
def verbOf (method : List Char) : HttpVerb :=
  if method = "GET".toList then .GET
  else if method = "PUT".toList then .PUT
  else if method = "POST".toList then .POST
  else if method = "DELETE".toList then .DEL
  else .GET

/-- SOURCE: OlpClient.cpp:96-109 -/
def queryString (queryParams : List (List Char × List Char)) : List Char :=
  if queryParams = [] then []
  else '?' :: ['&'].intercalate (queryParams.map fun p => p.1 ++ ['='] ++ p.2)

/-- The headers in the order in which they are added: all user agents are merged into one.
SOURCE: OlpClient.cpp:113-141 -/
def headers (c : OlpClient) (sdkUserAgent : List Char)
    (headerParams : List (List Char × List Char)) (contentType : List Char) :
    List (List Char × List Char) :=
  let isUserAgent := fun header : List Char × List Char =>
    caseInsensitiveCompare header.1 "User-Agent".toList
  let customUserAgent :=
    ((headerParams.filter isUserAgent).map fun header => header.2 ++ [' ']).flatten
  (c.bearer.map fun token => ("Authorization".toList, "Bearer ".toList ++ token)).toList ++
    c.defaultHeaders ++ headerParams.filter (fun header => !isUserAgent header) ++
    [("User-Agent".toList, customUserAgent ++ sdkUserAgent)] ++
    if contentType = [] then [] else [("Content-Type".toList, contentType)]

/-- SOURCE: OlpClient.cpp:77-144 -/
def createRequest (c : OlpClient) (sdkUserAgent path method : List Char)
    (queryParams headerParams : List (List Char × List Char)) (postBody : Option (List Char))
    (contentType : List Char) : NetworkRequest where
  url := c.baseUrl ++ path ++ queryString queryParams
  modifiedSince := 0
  priority := NetworkRequest.setPriority 2
  verb := verbOf method
  extraHeaders := c.headers sdkUserAgent headerParams contentType
  content := postBody

/-- SOURCE: NetworkConfig.h:43; OlpClient.cpp:200-205 -/
def config (c : OlpClient) : NetworkConfig :=
  ⟨c.retrySettings.timeout, 30, c.proxySettings⟩

/-! ## One call -/

/-- A call of `CallApi`, with what the handler will answer. -/
structure Call where
  settings : RetrySettings
  request : NetworkRequest
  config : NetworkConfig
  responses : ℕ → HttpResponse

/-- Where the chain of attempts is: the handler has been invoked and has not answered; the
callback of an attempt sleeps before the next one; it has locked the weak reference and waits
for the mutex; or the caller has its answer. `inside` says that the callback runs on the thread
that is inside the context. -/
inductive Control where
  | waiting (attempt : ℕ) (backdownPeriod : ℤ)
  | sleeping (attempt : ℕ) (backdownPeriod : ℤ) (inside : Bool)
  | locked (attempt : ℕ) (backdownPeriod : ℤ) (inside : Bool)
  | done
deriving DecidableEq, Repr

/-- What the thread inside the context is in the middle of. -/
inductive Frame where
  | handler (attempt : ℕ)
  | cancelling
deriving DecidableEq, Repr

/-- `held` says that the caller holds the token. What the handler was invoked with, the waits
and the answers to the caller are kept in the order in which they happened. -/
structure State where
  control : Control
  frames : List Frame
  context : CancellationContext ℕ
  held : Bool
  invocations : List (NetworkRequest × NetworkConfig)
  waits : List ℤ
  delivered : List HttpResponse
deriving DecidableEq, Repr

inductive Event where
  | answer (inside : Bool)
  | lockContext
  | enter
  | handlerReturns
  | cancel
  | cancelReturns
  | discard
deriving DecidableEq, Repr

/-- The test of the retry callback: the response of an attempt is handed to the caller.
SOURCE: OlpClient.cpp:155-157 -/
def Call.isLast (call : Call) (attempt : ℕ) : Bool :=
  call.settings.maxAttempts ≤ attempt ||
    !call.settings.retryCondition (call.responses attempt)

/-- The thread inside the context is busy with a callback. -/
def State.isBusy (s : State) : Bool :=
  match s.control with
  | .sleeping _ _ inside => inside
  | .locked _ _ inside => inside
  | _ => false

/-- Someone holds a reference to the context. -/
def State.isAlive (s : State) : Bool := s.held || !s.frames.isEmpty

/-- Inside `CallApi`: the handler has been invoked for the first time.
SOURCE: OlpClient.cpp:196-222 -/
def start (call : Call) : State where
  control := .waiting 1 call.settings.initialBackdownPeriod
  frames := [.handler 1]
  context := CancellationContext.new
  held := false
  invocations := [(call.request, call.config)]
  waits := []
  delivered := []

/-- The retry callback enters `ExecuteOrCancelled`.
SOURCE: OlpClient.cpp:163-179 -/
def enterContext (call : Call) (s : State) (attempt : ℕ) (backdownPeriod : ℤ) : State :=
  match s.context.branch true true with
  | .cancelFn => { s with control := .done, delivered := s.delivered ++ [HttpResponse.cancelled] }
  | _ =>
    { s with
      control := .waiting (attempt + 1) (call.settings.backdownPolicy backdownPeriod),
      frames := .handler (attempt + 1) :: s.frames,
      invocations := s.invocations ++ [(call.request, call.config)] }

/-- SOURCE: OlpClient.cpp:146-230; CancellationContext.inl:28-62 -/
def step (call : Call) (s : State) : Event → Option State
  | .answer inside =>
    match s.control with
    | .waiting attempt period =>
      if inside && s.frames.isEmpty then none
      else if call.isLast attempt then
        some { s with control := .done, delivered := s.delivered ++ [call.responses attempt] }
      else
        some { s with control := .sleeping attempt period inside, waits := s.waits ++ [period] }
    | _ => none
  | .lockContext =>
    match s.control with
    | .sleeping attempt period inside =>
      if s.isAlive then some { s with control := .locked attempt period inside }
      else
        some { s with control := .done, delivered := s.delivered ++ [HttpResponse.unknownError] }
    | _ => none
  | .enter =>
    match s.control with
    | .locked attempt period inside =>
      if inside || s.frames.isEmpty then some (enterContext call s attempt period) else none
    | _ => none
  | .handlerReturns =>
    match s.frames with
    | .handler attempt :: frames =>
      if s.isBusy then none
      else
        -- the first handler call is made by `CallApi`, which then returns the token
        some { s with
          context := s.context.assign (some attempt), frames := frames,
          held := s.held || attempt == 1 }
    | _ => none
  | .cancel =>
    if s.isBusy || !s.held then none
    else if s.context.isCancelled then some s
    else some { s with frames := .cancelling :: s.frames }
  | .cancelReturns =>
    match s.frames with
    | .cancelling :: frames =>
      if s.isBusy then none
      else some { s with context := s.context.finishCancel, frames := frames }
    | _ => none
  | .discard => if s.held then some { s with held := false } else none

/-- What a call of `CallApi` passes on to the handler and to the retry callback.
SOURCE: OlpClient.cpp:188-217 -/
def callApi (c : OlpClient) (sdkUserAgent path method : List Char)
    (queryParams headerParams : List (List Char × List Char)) (postBody : Option (List Char))
    (contentType : List Char) (responses : ℕ → HttpResponse) : Call where
  settings := c.retrySettings
  request := c.createRequest sdkUserAgent path method queryParams headerParams postBody contentType
  config := c.config
  responses := responses

end OlpClient

end OlpEdgeSdk.Model

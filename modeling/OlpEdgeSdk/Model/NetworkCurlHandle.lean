import Mathlib.Data.List.Basic
import OlpEdgeSdk.Base.Overwrite
import OlpEdgeSdk.Model.NetworkUtils

/-!
# The context of a request to curl

`RequestHandle` and what the callbacks of curl do with it: `RxFunction` for a piece of the
body, `HeaderFunction` for a line of the header, and the part of `CompleteMessage` that takes
the result of an attempt. The functions are the same in `NetworkCurl` and in
`NetworkProtocolCurl`; in the former `Send` leaves `ignore_offset` and `skip_content` off.

SOURCE: olp-cpp-sdk-core/src/http/curl/NetworkCurl.cpp
SOURCE: olp-cpp-sdk-core/src/http/curl/NetworkCurl.h
SOURCE: olp-cpp-sdk-core/src/network/curl/NetworkProtocolCurl.cpp
-/

set_option autoImplicit false

namespace OlpEdgeSdk.Model

open OlpEdgeSdk.Base

/-- The payload of a request: a stream of bytes with the position of the next write. -/
structure PayloadStream where
  bytes : List UInt8
  pos : ℕ
deriving DecidableEq

namespace PayloadStream

def empty : PayloadStream := { bytes := [], pos := 0 }

/-- `seekp`, which fails past the end. -/
def seekp (stream : PayloadStream) (pos : ℕ) : Option PayloadStream :=
  if pos ≤ stream.bytes.length then some { stream with pos := pos } else none

/-- `write`: over what is there, and on from the end. -/
def write (stream : PayloadStream) (data : List UInt8) : PayloadStream where
  bytes := overwriteAt stream.bytes stream.pos data
  pos := stream.pos + data.length

end PayloadStream

/-- A slot of `handles_`. The callback is told by the number of the `Send` it was given to.
What the header and data callbacks are called with is recorded; the times, the index and the
error text are left out.
SOURCE: NetworkCurl.h:97-125 -/
structure RequestHandle where
  etag : List Char
  contentType : List Char
  date : List Char
  payload : Option PayloadStream
  callback : Option ℕ
  headerCallback : Bool
  dataCallback : Bool
  headerCalls : List (List Char × List Char)
  dataCalls : List (ℕ × List UInt8)
  count : ℕ
  offset : ℕ
  handle : Bool
  retryCount : ℕ
  maxRetries : ℕ
  maxAge : ℤ
  expires : ℤ
  id : ℕ
  ignoreOffset : Bool
  inUse : Bool
  rangeOut : Bool
  cancelled : Bool
  skipContent : Bool
deriving DecidableEq

/-- A slot as it is built. -/
def RequestHandle.new : RequestHandle where
  etag := []
  contentType := []
  date := []
  payload := none
  callback := none
  headerCallback := false
  dataCallback := false
  headerCalls := []
  dataCalls := []
  count := 0
  offset := 0
  handle := false
  retryCount := 0
  maxRetries := 0
  maxAge := 0
  expires := 0
  id := 0
  ignoreOffset := false
  inUse := false
  rangeOut := false
  cancelled := false
  skipContent := false

/-- The codes of curl that are told apart. -/
inductive CurlCode where
  | OK
  | HTTP_RETURNED_ERROR
  | REMOTE_ACCESS_DENIED
  | SSL_CERTPROBLEM
  | SSL_CIPHER
  | LOGIN_DENIED
  | SSL_CACERT
  | UNSUPPORTED_PROTOCOL
  | URL_MALFORMAT
  | FTP_ACCEPT_FAILED
  | COULDNT_RESOLVE_HOST
  | COULDNT_CONNECT
  | OPERATION_TIMEDOUT
  | PARTIAL_FILE
  | OTHER
deriving DecidableEq, Repr

namespace NetworkCurl

open NetworkUtils

/-- `ErrorCode`.
SOURCE: NetworkTypes.h:52-65 -/
inductive ErrorCode where
  | SUCCESS
  | IO_ERROR
  | AUTHORIZATION_ERROR
  | INVALID_URL_ERROR
  | OFFLINE_ERROR
  | CANCELLED_ERROR
  | AUTHENTICATION_ERROR
  | TIMEOUT_ERROR
  | NETWORK_OVERLOAD_ERROR
  | UNKNOWN_ERROR
deriving DecidableEq, Repr

def ErrorCode.value : ErrorCode → ℤ
  | SUCCESS => 0
  | IO_ERROR => -1
  | AUTHORIZATION_ERROR => -2
  | INVALID_URL_ERROR => -3
  | OFFLINE_ERROR => -4
  | CANCELLED_ERROR => -5
  | AUTHENTICATION_ERROR => -6
  | TIMEOUT_ERROR => -7
  | NETWORK_OVERLOAD_ERROR => -8
  | UNKNOWN_ERROR => -9

/-- `ConvertErrorCode`.
SOURCE: NetworkCurl.cpp:124-154 -/
def convertErrorCode : CurlCode → ErrorCode
  | .OK => .SUCCESS
  | .REMOTE_ACCESS_DENIED | .SSL_CERTPROBLEM | .SSL_CIPHER | .LOGIN_DENIED =>
    .AUTHORIZATION_ERROR
  | .SSL_CACERT => .AUTHENTICATION_ERROR
  | .UNSUPPORTED_PROTOCOL | .URL_MALFORMAT => .INVALID_URL_ERROR
  | .FTP_ACCEPT_FAILED => .AUTHORIZATION_ERROR
  | .COULDNT_RESOLVE_HOST => .OFFLINE_ERROR
  | .OPERATION_TIMEDOUT => .TIMEOUT_ERROR
  | _ => .IO_ERROR

/-- What `GetHandle` makes of a free slot for a request.
SOURCE: NetworkCurl.cpp:633-655 -/
def take (handle : RequestHandle) (id : ℕ) (callback : Option ℕ)
    (headerCallback dataCallback : Bool) (payload : Option PayloadStream) : RequestHandle :=
  { handle with
    etag := [], contentType := [], date := [], payload := payload, callback := callback
    headerCallback := headerCallback, dataCallback := dataCallback, headerCalls := []
    dataCalls := [], count := 0, offset := 0, handle := true, retryCount := 0, maxAge := -1
    expires := -1, id := id, inUse := true, rangeOut := false, cancelled := false
    skipContent := false }

/-- What `Send` puts into the slot after that.
SOURCE: NetworkCurl.cpp:437-441, NetworkProtocolCurl.cpp:459-463 -/
def configure (handle : RequestHandle) (maxRetries : ℕ) (ignoreOffset skipContent : Bool) :
    RequestHandle :=
  { handle with
    maxRetries := maxRetries, ignoreOffset := ignoreOffset, skipContent := skipContent }

/-! ## The body -/

/-- Whether a piece of a body is dropped for the status it came with.
SOURCE: NetworkCurl.cpp:697-700 -/
def skips (handle : RequestHandle) (status : ℕ) : Bool :=
  handle.skipContent && status ≠ 200 && status ≠ 206 && status ≠ 201 && status ≠ 0

/-- A piece of the body put into the payload; a position that cannot be set stays.
SOURCE: NetworkCurl.cpp:707-721 -/
def writePayload (handle : RequestHandle) (data : List UInt8) (payload : PayloadStream) :
    PayloadStream :=
  let payload :=
    if !handle.ignoreOffset && payload.pos ≠ handle.count then
      (payload.seekp handle.count).getD payload
    else payload
  payload.write data

/-- `RxFunction`, for a piece that comes with a status.
SOURCE: NetworkCurl.cpp:685-741 -/
def rxFunction (isStarted : Bool) (status : ℕ) (handle : RequestHandle) (data : List UInt8) :
    RequestHandle :=
  if skips handle status then handle
  else if isStarted && !handle.rangeOut && !handle.cancelled then
    { handle with
      dataCalls :=
        if handle.dataCallback then handle.dataCalls ++ [(handle.offset + handle.count, data)]
        else handle.dataCalls
      payload := handle.payload.map (writePayload handle data)
      count := handle.count + data.length }
  else handle

/-! ## The header -/

/-- The length of a line without the line ends behind it, of which the first character is
never one.
SOURCE: NetworkCurl.cpp:751-753 -/
def headerCount (ptr : List Char) : ℕ → ℕ
  | 0 => 0
  | 1 => 1
  | count + 2 =>
    if ptr[count + 1]? = some '\n' ∨ ptr[count + 1]? = some '\r' then headerCount ptr (count + 1)
    else count + 2

/-- Whether a range is past the end, told by its first two characters.
SOURCE: NetworkCurl.cpp:790 -/
def isRangeOut (str : List Char) : Except StringFault Bool := do
  let first ← charAt str 21
  if first ≠ '*' then return false
  let second ← charAt str 22
  return second = '/'

/-- What a header line says about the range.
SOURCE: NetworkCurl.cpp:788-801 -/
def contentRange (str : List Char) (handle : RequestHandle) : Except StringFault RequestHandle := do
  if ← caseInsensitiveStartsWith str "bytes ".toList 15 then
    if ← isRangeOut str then return { handle with rangeOut := true }
    let first ← charAt str 21
    if '0' ≤ first ∧ first ≤ '9' then
      let text ← substr str 21
      let offset ← stoll text
      return { handle with offset := offset.toNat }
    else return handle
  else return handle

/-- The field that a header line sets.
SOURCE: NetworkCurl.cpp:767-801 -/
def headerField (curlGetdate : List Char → ℤ) (str : List Char) (handle : RequestHandle) :
    Except StringFault RequestHandle := do
  if ← caseInsensitiveStartsWith str "Date:".toList 0 then
    let date ← substr str 6
    return { handle with date := date }
  else if ← caseInsensitiveStartsWith str "Cache-Control:".toList 0 then
    match ← caseInsensitiveFind str "max-age=".toList 8 with
    | none => return handle
    | some index =>
      let text ← substr str (index + 8)
      let maxAge ← stoi text
      return { handle with maxAge := maxAge }
  else if ← caseInsensitiveStartsWith str "Expires:".toList 0 then
    let dateString ← substr str 9
    let expires :=
      if dateString = "0".toList then 0
      else if dateString = "-1".toList then -1
      else curlGetdate dateString
    return { handle with expires := expires }
  else if ← caseInsensitiveStartsWith str "ETag:".toList 0 then
    let etag ← substr str 6
    return { handle with etag := etag }
  else if ← caseInsensitiveStartsWith str "Content-Type:".toList 0 then
    let contentType ← substr str 14
    return { handle with contentType := contentType }
  else if ← caseInsensitiveStartsWith str "Content-Range:".toList 0 then
    contentRange str handle
  else return handle

/-- A header line without the line ends: the header callback if there is one, and the field.
SOURCE: NetworkCurl.cpp:757-801 -/
def headerLine (curlGetdate : List Char → ℤ) (str : List Char) (handle : RequestHandle) :
    Except StringFault RequestHandle :=
  match str.findIdx? (· = ':') with
  | none => .ok handle
  | some pos =>
    if str.length ≤ pos + 2 then .ok handle
    else do
      let value ← substr str (pos + 2)
      let handle :=
        if handle.headerCallback then
          { handle with headerCalls := handle.headerCalls ++ [(str.take pos, value)] }
        else handle
      headerField curlGetdate str handle

/-- `HeaderFunction`: the length of the line, and the handle after it.
SOURCE: NetworkCurl.cpp:743-803 -/
def headerFunction (curlGetdate : List Char → ℤ) (isStarted : Bool) (ptr : List Char)
    (handle : RequestHandle) : Except StringFault (ℕ × RequestHandle) :=
  let len := ptr.length
  if !isStarted || handle.cancelled then .ok (len, handle)
  else
    let count := headerCount ptr len
    if count = 0 then .ok (len, handle)
    else do
      let handle ← headerLine curlGetdate (ptr.take count) handle
      return (len, handle)

/-! ## The end of an attempt -/

/-- The status of an attempt: that of the response, or for the error. A transfer that broke off
counts as timed out if it took as long as it may.
SOURCE: NetworkCurl.cpp:846-882 -/
def attemptStatus (handle : RequestHandle) (result : CurlCode) (httpStatus : ℕ)
    (tookLong : Bool) : ℤ :=
  if result = .OK ∨ result = .HTTP_RETURNED_ERROR then
    let status := if handle.offset = 0 ∧ httpStatus = 206 then 200 else httpStatus
    if status = 0 ∧ result = .OK then 200 else status
  else if result = .PARTIAL_FILE ∧ tookLong then ErrorCode.TIMEOUT_ERROR.value
  else (convertErrorCode result).value

/-- Whether an attempt with such a status is worth another one.
SOURCE: NetworkCurl.cpp:884 -/
def isRetryStatus (status : ℤ) : Bool := 0 < status && (status < 200 || 500 ≤ status)

/-- The handle for another attempt, as long as there are any; the counter is raised in any
case.
SOURCE: NetworkCurl.cpp:884-895 -/
def retry (handle : RequestHandle) (status : ℤ) : RequestHandle × Bool :=
  if isRetryStatus status && !handle.cancelled then
    if handle.retryCount < handle.maxRetries then
      ({ handle with retryCount := handle.retryCount + 1, count := 0 }, true)
    else ({ handle with retryCount := handle.retryCount + 1 }, false)
  else (handle, false)

/-- An attempt as the server and the network make it: what its header lines say of the range,
its status, the pieces of its body and how it ends. -/
structure Attempt where
  rangeOut : Bool
  offset : Option ℕ
  status : ℕ
  chunks : List (List UInt8)
  result : CurlCode
  tookLong : Bool

/-- What the header lines of an attempt leave for its body, see `headerFunction`. -/
def receiveHeader (a : Attempt) (handle : RequestHandle) : RequestHandle :=
  { handle with
    rangeOut := handle.rangeOut || a.rangeOut, offset := a.offset.getD handle.offset }

/-- One attempt: the header, the body and the end. -/
def receive (a : Attempt) (handle : RequestHandle) : RequestHandle × Bool :=
  let handle := a.chunks.foldl (rxFunction true a.status) (receiveHeader a handle)
  retry handle (attemptStatus handle a.result a.status a.tookLong)

/-- The attempts of a request, until one is not followed by another: the payload then, and
the attempts that are not made any more. -/
def download : RequestHandle → List Attempt → Option (Option PayloadStream × List Attempt)
  | _, [] => none
  | handle, a :: attempts =>
    let (handle, again) := receive a handle
    if again then download handle attempts else some (handle.payload, attempts)

end NetworkCurl

end OlpEdgeSdk.Model

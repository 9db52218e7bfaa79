import Mathlib.Data.Int.Init
import Mathlib.Data.Nat.Notation

/-!
# Tokens that are refreshed

An `AutoRefreshingToken` keeps the response of the token endpoint and the time from which on it
is asked again. A time is a number of ticks of the system clock since the epoch, with `second`
ticks a second; a token expires at a full second. The clock is read up to four times in a call,
and each reading is given.

The mutex is left out, as calls are run one after another, and so are the fields of a response
that the class does not read.

SOURCE: AutoRefreshingToken.cpp
-/

set_option autoImplicit false

namespace OlpEdgeSdk.Model.AutoRefreshingToken

/-- SOURCE: TokenResult.h:86-89 -/
structure TokenResult where
  accessToken : List Char
  expiryTime : ℤ
deriving DecidableEq, Repr

/-- A response; that of a request which failed has an empty result.
SOURCE: ApiResponse.h:40-83 -/
structure TokenResponse where
  result : TokenResult
  success : Bool
deriving DecidableEq, Repr

/-- What the clock shows when a call begins, when it has the lock, and when the new token is
looked at and its expiry was found to be over. -/
structure Clock where
  entered : ℕ
  locked : ℕ
  received : ℕ
  expired : ℕ
deriving DecidableEq, Repr

/-- `AutoRefreshingToken::Impl`.
SOURCE: AutoRefreshingToken.cpp:116-122 -/
structure Impl where
  currentToken : TokenResponse
  tokenRefreshTime : ℤ
deriving DecidableEq, Repr

/-- SOURCE: AutoRefreshingToken.cpp:36-40 -/
def Impl.new : Impl := ⟨⟨⟨[], 0⟩, false⟩, 0⟩

/-- SOURCE: AutoRefreshingToken.cpp:64-66 -/
def shouldRefreshNow (impl : Impl) (now : ℕ) : Bool := impl.tokenRefreshTime ≤ now

/-- SOURCE: AutoRefreshingToken.cpp:68-70 -/
def forceRefresh (minimumValidity : ℤ) : Bool := minimumValidity ≤ 0

variable (second : ℕ)

/-- SOURCE: AutoRefreshingToken.cpp:106-114 -/
def computeTokenRefreshTime (clock : Clock) (expiryTime minimumValidity : ℤ) : ℤ :=
  let expiryTimeChrono := expiryTime * second
  if expiryTimeChrono ≤ clock.received then clock.expired
  else expiryTimeChrono - minimumValidity * second

/-- The response is kept, with the time for the next refresh.
SOURCE: AutoRefreshingToken.cpp:78-82, 99-101 -/
def keep (clock : Clock) (response : TokenResponse) (minimumValidity : ℤ) : Impl :=
  ⟨response, computeTokenRefreshTime second clock response.result.expiryTime minimumValidity⟩

/-- SOURCE: AutoRefreshingToken.cpp:72-83 -/
def tryRefreshCurrentToken (impl : Impl) (clock : Clock) (response : TokenResponse)
    (minimumValidity : ℤ) : Impl :=
  if ¬ forceRefresh minimumValidity ∧ ¬ shouldRefreshNow impl clock.locked then impl
  else keep second clock response minimumValidity

/-- The form that blocks.
SOURCE: AutoRefreshingToken.cpp:42-50 -/
def getToken (impl : Impl) (clock : Clock) (response : TokenResponse) (minimumValidity : ℤ) :
    Impl × TokenResponse :=
  if forceRefresh minimumValidity ∨ shouldRefreshNow impl clock.entered then
    let impl := tryRefreshCurrentToken second impl clock response minimumValidity
    (impl, impl.currentToken)
  else (impl, impl.currentToken)

/-- What is passed to the callback of the other form, beside the state.
SOURCE: AutoRefreshingToken.cpp:85-104 -/
def tryRefreshCurrentTokenCallback (impl : Impl) (clock : Clock) (response : TokenResponse)
    (minimumValidity : ℤ) : Impl × TokenResponse :=
  if ¬ forceRefresh minimumValidity ∧ ¬ shouldRefreshNow impl clock.locked then
    (impl, impl.currentToken)
  else (keep second clock response minimumValidity, response)

/-- The form with a callback.
SOURCE: AutoRefreshingToken.cpp:52-61 -/
def getTokenCallback (impl : Impl) (clock : Clock) (response : TokenResponse)
    (minimumValidity : ℤ) : Impl × TokenResponse :=
  if forceRefresh minimumValidity ∨ shouldRefreshNow impl clock.entered then
    tryRefreshCurrentTokenCallback second impl clock response minimumValidity
  else (impl, impl.currentToken)

/-- The two forms of `GetToken`. -/
inductive Form where
  | blocking
  | callback
deriving DecidableEq, Repr

/-- A call, with what the clock shows and what the endpoint would answer and when. -/
structure Call where
  form : Form
  minimumValidity : ℤ
  clock : Clock
  issued : ℕ
  response : TokenResponse
deriving DecidableEq, Repr

/-- The state after a call, and what the caller gets. -/
def Call.run (impl : Impl) (call : Call) : Impl × TokenResponse :=
  match call.form with
  | .blocking => getToken second impl call.clock call.response call.minimumValidity
  | .callback => getTokenCallback second impl call.clock call.response call.minimumValidity

/-- The state after calls that are run one after another. -/
def runAll (impl : Impl) (calls : List Call) : Impl :=
  calls.foldl (fun impl call => (call.run second impl).1) impl

end OlpEdgeSdk.Model.AutoRefreshingToken

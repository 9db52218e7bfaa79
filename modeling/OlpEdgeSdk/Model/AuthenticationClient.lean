import OlpEdgeSdk.Base.Runs
import OlpEdgeSdk.Interface.LinkedLru

/-!
# Sign-in and the token caches

`SignInClient` and the four sign-ins of a user send a request and handle its answer in a callback,
at any later time and in any order. A successful answer is cached under the key of the
credentials, in one cache for the client tokens and one for the tokens of all users; when the
network fails, the callback answers from the cache.

Of a request only the credentials and the user it is made for are kept; of an answer what a
`SignInResultImpl` reads from it. The details of an error and the texts of the terms of service
are left out. `issued` records the successful answers of the server, the last one first; no
function reads it.

SOURCE: AuthenticationClient.cpp, SignInResultImpl.cpp, BaseResult.cpp, AuthenticationCredentials.h
-/

set_option autoImplicit false

namespace OlpEdgeSdk.Model

open OlpEdgeSdk.Base OlpEdgeSdk.Interface

structure AuthenticationCredentials where
  key : List Char
  secret : List Char
deriving DecidableEq

/-- The members of the JSON document that a sign-in result reads. -/
structure SignInDocument where
  accessToken : Option String
  tokenType : Option String
  expiresIn : Option ℕ
  refreshToken : Option String
  userId : Option String
deriving DecidableEq

/-- SOURCE: Network.h:71-80, HttpStatusCode.h -/
def cancelledStatus : ℤ := -5
def okStatus : ℤ := 200
def serviceUnavailableStatus : ℤ := 503

structure SignInResult where
  status : ℤ
  error : String
  isValid : Bool
  accessToken : String
  tokenType : String
  refreshToken : String
  expiryTime : ℤ
  userIdentifier : String
deriving DecidableEq

/-- The result made of an answer. The document is none if it does not parse; `now` is the time.
SOURCE: SignInResultImpl.cpp:30-56, BaseResult.cpp:38-45 -/
def SignInResult.ofAnswer (status : ℤ) (error : String) (document : Option SignInDocument)
    (now : ℤ) : SignInResult :=
  match document with
  | none =>
    if status = okStatus then
      ⟨serviceUnavailableStatus, "Service unavailable", false, "", "", "", 0, ""⟩
    else ⟨status, error, false, "", "", "", 0, ""⟩
  | some document =>
    let isValid := document.accessToken.isSome && document.tokenType.isSome &&
      document.expiresIn.isSome
    if status = okStatus then
      if isValid then
        ⟨status, error, true, document.accessToken.getD "", document.tokenType.getD "",
          document.refreshToken.getD "", now + document.expiresIn.getD 0,
          document.userId.getD ""⟩
      else ⟨serviceUnavailableStatus, "Service unavailable", false, "", "", "", 0, ""⟩
    else ⟨status, error, isValid, "", "", "", 0, ""⟩

/-- SOURCE: LruCache.h:39-42 -/
def cacheCost (_ : SignInResult) : UInt64 := 1

abbrev TokenCache := LinkedLru (List Char) SignInResult cacheCost

/-- What the network hands to the callback of a request. -/
structure NetworkAnswer where
  status : ℤ
  error : String
  document : Option SignInDocument
  now : ℤ

/-- What the callback of the caller is given: an error, a result made of the answer, or one from
the cache. -/
inductive Delivery where
  | error (code : ℤ) (message : String)
  | result (r : SignInResult)
  | cached (r : SignInResult)
deriving DecidableEq

/-- A negative status is an error of the network, other than that the request was cancelled. -/
def NetworkAnswer.offline (answer : NetworkAnswer) : Bool :=
  answer.status < 0 ∧ answer.status ≠ cancelledStatus

/-- The callback that the sign-ins give to the network. `noToken` is what they answer when the
network fails and there is no cached token.
SOURCE: AuthenticationClient.cpp:286-349, 406-467 -/
def handleAnswer (noToken : ℤ → String → Delivery) (cache : TokenCache) (key : List Char)
    (answer : NetworkAnswer) : TokenCache × Delivery :=
  if answer.status < 0 then
    if answer.status = cancelledStatus then (cache, .error cancelledStatus answer.error)
    else
      match (cache.find key).1.valueAt (cache.find key).2 with
      | some r => ((cache.find key).1, .cached r)
      | none => ((cache.find key).1, noToken answer.status answer.error)
  else
    let r := SignInResult.ofAnswer answer.status answer.error answer.document answer.now
    if r.isValid ∧ answer.status = okStatus then ((cache.insertOrAssign key r).1, .result r)
    else (cache, .result r)

/-- A sign-in: the credentials of the application, and the user it is for. -/
inductive SignIn (User : Type) where
  | signInClient (credentials : AuthenticationCredentials)
  | signInHereUser (credentials : AuthenticationCredentials) (user : User)
  | signInFederated (credentials : AuthenticationCredentials) (user : User)
  | signInRefresh (credentials : AuthenticationCredentials) (user : User)
  | acceptTerms (credentials : AuthenticationCredentials) (user : User)
deriving DecidableEq

namespace SignIn

variable {User : Type}

def credentials : SignIn User → AuthenticationCredentials
  | signInClient credentials => credentials
  | signInHereUser credentials _ => credentials
  | signInFederated credentials _ => credentials
  | signInRefresh credentials _ => credentials
  | acceptTerms credentials _ => credentials

def user : SignIn User → Option User
  | signInClient _ => none
  | signInHereUser _ user => some user
  | signInFederated _ user => some user
  | signInRefresh _ user => some user
  | acceptTerms _ user => some user

/-- Whom a token that answers the sign-in belongs to. -/
def owner (request : SignIn User) : AuthenticationCredentials × Option User :=
  (request.credentials, request.user)

end SignIn

/-- `requests` are the requests sent, oldest first, and none in the place of one that was
answered. -/
structure AuthenticationClient (User : Type) where
  clientTokenCache : TokenCache
  userTokenCache : TokenCache
  requests : List (Option (SignIn User))
  issued : List (SignIn User × SignInResult)

namespace AuthenticationClient

variable {User : Type}

/-- SOURCE: AuthenticationClient.cpp:251-261 -/
def new (tokenCacheLimit : UInt64) : AuthenticationClient User :=
  ⟨.new tokenCacheLimit, .new tokenCacheLimit, [], []⟩

/-- SOURCE: AuthenticationClient.cpp:283-349 -/
def answerClient (s : AuthenticationClient User) (credentials : AuthenticationCredentials)
    (answer : NetworkAnswer) : AuthenticationClient User × Delivery :=
  let handled := handleAnswer .error s.clientTokenCache credentials.key answer
  ({ s with clientTokenCache := handled.1 }, handled.2)

/-- A user who has no token is given the error as a result.
SOURCE: AuthenticationClient.cpp:403-467 -/
def answerUser (s : AuthenticationClient User) (credentials : AuthenticationCredentials)
    (answer : NetworkAnswer) : AuthenticationClient User × Delivery :=
  let handled := handleAnswer (fun status error =>
      .result (SignInResult.ofAnswer status error none answer.now))
    s.userTokenCache credentials.key answer
  ({ s with userTokenCache := handled.1 }, handled.2)

/-- All sign-ins of users share `HandleUserRequest`.
SOURCE: AuthenticationClient.cpp:354-382 -/
def answer (s : AuthenticationClient User) (request : SignIn User) (answer : NetworkAnswer) :
    AuthenticationClient User × Delivery :=
  match request with
  | .signInClient credentials => answerClient s credentials answer
  | .signInHereUser credentials _ => answerUser s credentials answer
  | .signInFederated credentials _ => answerUser s credentials answer
  | .signInRefresh credentials _ => answerUser s credentials answer
  | .acceptTerms credentials _ => answerUser s credentials answer

/-- The result that a successful answer of the server carries. -/
def successful (answer : NetworkAnswer) : Option SignInResult :=
  let r := SignInResult.ofAnswer answer.status answer.error answer.document answer.now
  if r.isValid ∧ answer.status = okStatus then some r else none

inductive Event (User : Type) where
  | signIn (request : SignIn User)
  | answer (i : ℕ) (answer : NetworkAnswer)

def step (s : AuthenticationClient User) : Event User → Option (AuthenticationClient User)
  | .signIn request => some { s with requests := s.requests ++ [some request] }
  | .answer i networkAnswer =>
    match s.requests[i]? with
    | some (some request) =>
      some { (answer s request networkAnswer).1 with
        requests := s.requests.set i none
        issued := ((successful networkAnswer).map (request, ·)).toList ++ s.issued }
    | _ => none

/-- The cache that a sign-in uses. -/
def cacheOf (s : AuthenticationClient User) (request : SignIn User) : TokenCache :=
  if request.user.isSome then s.userTokenCache else s.clientTokenCache

end AuthenticationClient

end OlpEdgeSdk.Model

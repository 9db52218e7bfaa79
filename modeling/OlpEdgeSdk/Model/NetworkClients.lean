import OlpEdgeSdk.Base.Runs
import OlpEdgeSdk.Model.Network

/-!
# The clients of the network

A `Network` sends its requests through a `NetworkSingleton`, which is shared by all clients and is
gone when nobody holds it. It keeps the ids of its requests until they are answered, so that
`Stop` can cancel them. When the first answer says that the certificate is outdated, the
singleton sends nothing until it is unblocked, and has the certificate updated.

A run is a list of events: a client comes, a function is called, or a call that is under way
takes a step. A step is what is done under one mutex, or one access to an atomic. A callback may
call the network again, by events of its own. The protocol is not modelled: it may refuse a
request, answers what it has taken once and with its id, and may answer anything to a
cancellation. `Start` and `Stop` hold the mutex of the client for more than one step.

The request is handed on as it is. The configurations, the payload, the header and data callbacks,
the listeners and the choice of the updater are left out.

SOURCE: Network.cpp, Network.h
-/

set_option autoImplicit false

namespace OlpEdgeSdk.Model.NetworkClients

/-! ## Ids -/

/-- SOURCE: Network.h:53-57 -/
def networkRequestIdInvalid : ℤ := -2147483648

/-- SOURCE: Network.h:53-57 -/
def networkRequestIdMin : ℤ := networkRequestIdInvalid + 1

/-- What `next_id` is after a number of increments.
SOURCE: Network.cpp:63-64 -/
def nextId (increments : ℕ) : ℤ := (networkRequestIdMin + increments).bmod 4294967296

/-- SOURCE: Network.h:42-44 -/
def clientIdInvalid : ℕ := 0

/-- What `next_id` is after a call, and the id that is returned.
SOURCE: Network.cpp:71-79 -/
def nextClientId (nextId : ℕ) : ℕ :=
  let id := (nextId + 1) % 4294967296
  if id = clientIdInvalid then (id + 1) % 4294967296 else id

/-! ## Clients and singletons -/

/-- `updates` counts the calls of the updater.
SOURCE: Network.cpp:106-118 -/
structure NetworkSingleton where
  protocol : Bool
  blocked : Bool
  certificateUpdateWasTriggered : Bool
  updates : ℕ
deriving DecidableEq, Repr

/-- SOURCE: Network.cpp:184-185 -/
def NetworkSingleton.new : NetworkSingleton := ⟨false, false, false, 0⟩

/-- A client; `locked` tells that a call holds its mutex between two steps.
SOURCE: Network.h:288-293 -/
structure Network where
  singleton : Option ℕ
  id : ℕ
  requestIds : List ℤ
  locked : Bool
deriving DecidableEq, Repr

namespace Network

/-- SOURCE: Network.cpp:290-291 -/
def new : Network := ⟨none, clientIdInvalid, [], false⟩

/-- SOURCE: Network.cpp:342 -/
def started (n : Network) : Bool := n.id ≠ clientIdInvalid

/-- SOURCE: Network.cpp:495-505 -/
def remove (n : Network) (id : ℤ) : Network := { n with requestIds := n.requestIds.erase id }

end Network

/-! ## Calls -/

/-- SOURCE: Network.cpp:295-309 -/
inductive StartPhase where
  | called
  | initializing (singleton : ℕ)
  | returned (result : Bool)
deriving DecidableEq, Repr

/-- SOURCE: Network.cpp:311-332 -/
inductive StopPhase where
  | called
  | clearing
  | cancelling (singleton : Option ℕ) (ids : List ℤ)
  | returned (result : Bool)
deriving DecidableEq, Repr

/-- The calls of `Cancel` and `CancelIfPending`, which remove the id before and after they cancel.
SOURCE: Network.cpp:416-434 -/
inductive CancelPhase where
  | called
  | started
  | removing (singleton : ℕ)
  | cancelling (singleton : ℕ)
  | returned (result : Bool)
deriving DecidableEq, Repr

/-- SOURCE: Network.cpp:344-396, 216-261 -/
inductive SendPhase where
  | called
  | gotSingleton
  | started
  | drawing (again : Bool)
  | inserting
  | inserted
  | notBlocked
  | handingOver
  | waiting
  | responded (response : NetworkResponse)
  | checking (response : NetworkResponse)
  | blocking (response : NetworkResponse)
  | updating (response : NetworkResponse)
  | removing (response : NetworkResponse)
  | callingBack (response : NetworkResponse)
  | ended
deriving DecidableEq, Repr

/-- A call of `Send`, until its request is answered. `inSend` tells that it has not returned,
`accepted` that the protocol has taken the request, `holds` that its answer holds the singleton,
and `callbacks` what its callback has been called with. -/
structure SendCall where
  client : ℕ
  request : NetworkRequest
  singleton : Option ℕ
  id : Option ℤ
  inSend : Bool
  accepted : Bool
  holds : Bool
  phase : SendPhase
  callbacks : List NetworkResponse
deriving DecidableEq, Repr

inductive Call where
  | start (client : ℕ) (phase : StartPhase)
  | stop (client : ℕ) (phase : StopPhase)
  | cancel (client : ℕ) (id : ℤ) (ifPending : Bool) (phase : CancelPhase)
  | send (c : SendCall)
deriving DecidableEq, Repr

namespace Call

/-- The calls as they begin. -/
inductive Function where
  | start
  | stop
  | cancel (id : ℤ)
  | cancelIfPending (id : ℤ)
  | send (request : NetworkRequest)
deriving DecidableEq, Repr

def begin (client : ℕ) : Function → Call
  | .start => .start client .called
  | .stop => .stop client .called
  | .cancel id => .cancel client id false .called
  | .cancelIfPending id => .cancel client id true .called
  | .send request => .send ⟨client, request, none, none, true, false, false, .called, []⟩

def client : Call → ℕ
  | .start k _ | .stop k _ | .cancel k _ _ _ => k
  | .send c => c.client

/-- The singleton that a call holds in a pointer of its own. -/
def singleton : Call → Option ℕ
  | .start _ _ => none
  | .stop _ (.cancelling singleton _) => singleton
  | .stop _ _ => none
  | .cancel _ _ _ (.removing singleton) | .cancel _ _ _ (.cancelling singleton) => some singleton
  | .cancel _ _ _ _ => none
  | .send c => if c.inSend || c.holds then c.singleton else none

end Call

/-! ## The system -/

/-- The clients, the singletons in the order in which they were made (`g_singleton` points to the
last one), the calls, and what the protocols have cancelled, or were told to. -/
structure State where
  increments : ℕ
  nextClientId : ℕ
  singletons : List NetworkSingleton
  clients : List Network
  calls : List Call
  cancels : List (ℕ × ℤ)
deriving DecidableEq, Repr

namespace State

/-- SOURCE: Network.cpp:63, 72-73 -/
def initial : State := ⟨0, 1, [], [], [], []⟩

/-- Somebody has a pointer to the singleton. -/
def Alive (s : State) (singleton : ℕ) : Prop :=
  (∃ client ∈ s.clients, client.singleton = some singleton) ∨
    ∃ call ∈ s.calls, call.singleton = some singleton

instance (s : State) (singleton : ℕ) : Decidable (s.Alive singleton) :=
  inferInstanceAs (Decidable (_ ∨ _))

def setCall (s : State) (i : ℕ) (call : Call) : State := { s with calls := s.calls.set i call }

def setClient (s : State) (k : ℕ) (client : Network) : State :=
  { s with clients := s.clients.set k client }

def setSingleton (s : State) (g : ℕ) (singleton : NetworkSingleton) : State :=
  { s with singletons := s.singletons.set g singleton }

/-- SOURCE: Network.cpp:148-158 -/
def singletonInstance (s : State) : State × ℕ :=
  if s.singletons ≠ [] ∧ s.Alive (s.singletons.length - 1) then (s, s.singletons.length - 1)
  else ({ s with singletons := s.singletons ++ [.new] }, s.singletons.length)

end State

/-- What can happen: `goOn` is a step of a call that needs nothing but the state, `initialized`
one that makes a protocol, `handedOver` and `cancelled` are answers of the protocol to a call,
and `responds` its answer to a request. -/
inductive Event where
  | newClient
  | calls (client : ℕ) (function : Call.Function)
  | goOn (i : ℕ)
  | initialized (i : ℕ) (ok : Bool)
  | handedOver (i : ℕ) (error : NetworkProtocol.ErrorCode)
  | cancelled (i : ℕ) (done : Bool)
  | responds (i : ℕ) (response : NetworkResponse)
  | returns (i : ℕ)
  | unblock
deriving DecidableEq, Repr

/-! ## Steps -/

/-- SOURCE: Network.cpp:295-299 -/
def startGoesOn (s : State) (i k : ℕ) (client : Network) : StartPhase → Option State
  | .called =>
    if client.locked then none
    else if client.started then some (s.setCall i (.start k (.returned false)))
    else
      let (s, g) := s.singletonInstance
      some ((s.setClient k { client with singleton := some g, locked := true }).setCall i
        (.start k (.initializing g)))
  | .initializing _ | .returned _ => none

/-- The protocol is made unless there is one.
SOURCE: Network.cpp:300-308, 193-205 -/
def initialized (s : State) (i k : ℕ) (client : Network) (g : ℕ) (singleton : NetworkSingleton)
    (ok : Bool) : State :=
  if singleton.protocol || ok then
    let id := NetworkClients.nextClientId s.nextClientId
    (({ s with nextClientId := id }.setSingleton g { singleton with protocol := true }).setClient k
      { client with id := id, locked := false }).setCall i (.start k (.returned true))
  else (s.setClient k { client with singleton := none, locked := false }).setCall i
    (.start k (.returned false))

/-- SOURCE: Network.cpp:311-332, 263-269 -/
def stopGoesOn (s : State) (i k : ℕ) (client : Network) : StopPhase → Option State
  | .called =>
    if client.locked then none
    else if client.started then
      some ((s.setClient k { client with id := clientIdInvalid, locked := true }).setCall i
        (.stop k .clearing))
    else some (s.setCall i (.stop k (.returned false)))
  | .clearing =>
    some ((s.setClient k { client with singleton := none, requestIds := [], locked := false }).setCall
      i (.stop k (.cancelling client.singleton client.requestIds)))
  | .cancelling _ [] => some (s.setCall i (.stop k (.returned true)))
  | .cancelling (some g) (_ :: ids) =>
    match s.singletons[g]? with
    | some singleton =>
      -- there is nothing to call
      if singleton.protocol then none
      else some (s.setCall i (.stop k (.cancelling (some g) ids)))
    | none => none
  | .cancelling none (_ :: _) | .returned _ => none

/-- SOURCE: Network.cpp:416-434, 263-277 -/
def cancelGoesOn (s : State) (i k : ℕ) (client : Network) (id : ℤ) (ifPending : Bool) :
    CancelPhase → Option State
  | .called =>
    some (s.setCall i (.cancel k id ifPending
      (if client.started then .started else .returned false)))
  | .started =>
    if client.locked then none
    else
      match client.singleton with
      | some g =>
        some (s.setCall i (.cancel k id ifPending
          (if ifPending then .cancelling g else .removing g)))
      | none => some (s.setCall i (.cancel k id ifPending (.returned false)))
  | .removing g =>
    some ((s.setClient k (client.remove id)).setCall i (.cancel k id ifPending
      (if ifPending then .returned true else .cancelling g)))
  | .cancelling g =>
    match s.singletons[g]? with
    | some singleton =>
      if singleton.protocol then none
      else some (s.setCall i (.cancel k id ifPending (.returned false)))
    | none => none
  | .returned _ => none

/-- The answer of a client that is not started.
SOURCE: Network.cpp:351 -/
def offlineResponse : NetworkResponse := ⟨0, false, -4, "Offline".toList, 0, -1, [], [], 0, 0⟩

/-- What a request is answered while the singleton is blocked.
SOURCE: Network.cpp:224-225 -/
def blockedResponse (id : ℤ) : NetworkResponse :=
  .simple id (-2) "Waiting for certificates.".toList

/-- SOURCE: Network.h:77 -/
def authenticationError : ℤ := -6

/-- SOURCE: Network.cpp:344-396, 216-261 -/
def sendGoesOn (s : State) (i : ℕ) (client : Network) (c : SendCall) : Option State :=
  let go (s : State) (c : SendCall) : Option State := some (s.setCall i (.send c))
  match c.phase with
  | .called =>
    if client.locked then none
    else go s { c with singleton := client.singleton, phase := .gotSingleton }
  | .gotSingleton =>
    go s { c with
      phase := if client.started ∧ c.singleton.isSome then .started
        else .callingBack offlineResponse }
  -- the configuration is copied under the mutex
  | .started => if client.locked then none else go s { c with phase := .drawing false }
  | .drawing again =>
    let id := nextId (s.increments + 1)
    go { s with increments := s.increments + 1 } <|
      if id = networkRequestIdInvalid ∧ !again then { c with phase := .drawing true }
      else { c with id := some id, phase := .inserting }
  | .inserting =>
    match c.id with
    | some id =>
      go (s.setClient c.client { client with requestIds := client.requestIds ++ [id] })
        { c with phase := .inserted }
    | none => none
  | .inserted =>
    match c.singleton.bind (s.singletons[·]?), c.id with
    | some singleton, some id =>
      go s { c with
        phase := if singleton.blocked then .removing (blockedResponse id) else .notBlocked }
    | _, _ => none
  | .notBlocked =>
    match c.singleton.bind (s.singletons[·]?), c.id with
    | some singleton, some id =>
      go s { c with
        phase := if singleton.protocol then .handingOver
          else .removing (.simple id (-4) "Offline".toList) }
    | _, _ => none
  | .responded response =>
    go s { c with holds := c.singleton.any fun g => s.Alive g, phase := .checking response }
  | .checking response =>
    match c.singleton with
    | some g =>
      match s.singletons[g]? with
      | some singleton =>
        if response.status = authenticationError ∧ c.holds ∧
            !singleton.certificateUpdateWasTriggered then
          go (s.setSingleton g { singleton with certificateUpdateWasTriggered := true })
            { c with phase := .blocking response }
        else go s { c with phase := .removing response }
      | none => none
    | none => none
  | .blocking response =>
    match c.singleton with
    | some g =>
      match s.singletons[g]? with
      | some singleton =>
        go (s.setSingleton g { singleton with blocked := true })
          { c with phase := .updating response }
      | none => none
    | none => none
  | .updating response =>
    match c.singleton with
    | some g =>
      match s.singletons[g]? with
      | some singleton =>
        go (s.setSingleton g { singleton with updates := singleton.updates + 1 })
          { c with phase := .removing response }
      | none => none
    | none => none
  | .removing response =>
    go (s.setClient c.client (client.remove response.id))
      { c with phase := .callingBack response }
  | .callingBack response =>
    go s { c with callbacks := c.callbacks ++ [response], holds := false, phase := .ended }
  | .handingOver | .waiting | .ended => none

/-- A call that is under way goes on. -/
def goesOn (s : State) (i : ℕ) : Option State := do
  let call ← s.calls[i]?
  let client ← s.clients[call.client]?
  match call with
  | .start k phase => startGoesOn s i k client phase
  | .stop k phase => stopGoesOn s i k client phase
  | .cancel k id ifPending phase => cancelGoesOn s i k client id ifPending phase
  | .send c => sendGoesOn s i client c

/-- A protocol is told to cancel a request, or to cancel it if it is pending.
SOURCE: Network.cpp:263-277 -/
def cancelled (s : State) (i : ℕ) (done : Bool) : Option State :=
  match s.calls[i]? with
  | some (.stop k (.cancelling (some g) (id :: ids))) => do
    let singleton ← s.singletons[g]?
    if singleton.protocol then
      some ({ s with cancels := s.cancels ++ [(g, id)] }.setCall i
        (.stop k (.cancelling (some g) ids)))
    else none
  | some (.cancel k id ifPending (.cancelling g)) => do
    let singleton ← s.singletons[g]?
    if singleton.protocol then
      some ({ s with
        cancels := if ifPending ∧ !done then s.cancels else s.cancels ++ [(g, id)] }.setCall i
          (.cancel k id ifPending (if ifPending ∧ done then .removing g else .returned done)))
    else none
  | _ => none

/-- SOURCE: Network.cpp:236-260 -/
def handedOver (s : State) (i : ℕ) (error : NetworkProtocol.ErrorCode) : Option State :=
  match s.calls[i]? with
  | some (.send c) =>
    match c.phase, c.id with
    | .handingOver, some id =>
      some (s.setCall i (.send (if error = .errorNone then
          { c with accepted := true, phase := .waiting }
        else
          { c with
            phase := .removing (NetworkProtocol.handleSynchronousNetworkErrors error id) })))
    | _, _ => none
  | _ => none

def step (s : State) : Event → Option State
  | .newClient => some { s with clients := s.clients ++ [.new] }
  | .calls k function =>
    if k < s.clients.length then some { s with calls := s.calls ++ [.begin k function] } else none
  | .goOn i => goesOn s i
  | .initialized i ok =>
    match s.calls[i]? with
    | some (.start k (.initializing g)) => do
      let client ← s.clients[k]?
      let singleton ← s.singletons[g]?
      return initialized s i k client g singleton ok
    | _ => none
  | .handedOver i error => handedOver s i error
  | .cancelled i done => cancelled s i done
  | .responds i response =>
    match s.calls[i]? with
    | some (.send c) =>
      if c.phase = .waiting ∧ c.id = some response.id then
        some (s.setCall i (.send { c with phase := .responded response }))
      else none
    | _ => none
  | .returns i =>
    match s.calls[i]? with
    | some (.send c) =>
      if c.inSend ∧ (c.accepted ∨ c.phase = .ended) then
        some (s.setCall i (.send { c with inSend := false }))
      else none
    | _ => none
  | .unblock =>
    -- SOURCE: Network.cpp:475-479
    match s.singletons.getLast? with
    | some singleton =>
      if s.Alive (s.singletons.length - 1) then
        some (s.setSingleton (s.singletons.length - 1) { singleton with blocked := false })
      else some s
    | none => some s

end OlpEdgeSdk.Model.NetworkClients

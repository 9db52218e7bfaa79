import OlpEdgeSdk.Base.Progress
import OlpEdgeSdk.Model.NetworkClients

/-!
# Runs of the clients of the network
-/

set_option autoImplicit false

namespace OlpEdgeSdk.Analysis.NetworkClientRuns

open OlpEdgeSdk.Base OlpEdgeSdk.Model OlpEdgeSdk.Model.NetworkClients

/-! ## What a step does -/

/-- A step of a call of `Send` that changes nothing but the call. -/
inductive Quiet (s : State) (c : SendCall) : SendCall → Prop where
  | got (client : Network) (hphase : c.phase = .called)
      (hclient : s.clients[c.client]? = some client) (hlocked : client.locked = false) :
      Quiet s c { c with singleton := client.singleton, phase := .gotSingleton }
  | started (client : Network) (hphase : c.phase = .gotSingleton)
      (hclient : s.clients[c.client]? = some client) (hstarted : client.started = true)
      (hsingleton : c.singleton.isSome) : Quiet s c { c with phase := .started }
  | offline (client : Network) (hphase : c.phase = .gotSingleton)
      (hclient : s.clients[c.client]? = some client)
      (hoffline : client.started = true → c.singleton = none) :
      Quiet s c { c with phase := .callingBack offlineResponse }
  | configured (client : Network) (hphase : c.phase = .started)
      (hclient : s.clients[c.client]? = some client) (hlocked : client.locked = false) :
      Quiet s c { c with phase := .drawing false }
  | foundBlocked (g : ℕ) (singleton : NetworkSingleton) (id : ℤ) (hphase : c.phase = .inserted)
      (hsingleton : c.singleton = some g) (hg : s.singletons[g]? = some singleton)
      (hid : c.id = some id) (hblocked : singleton.blocked = true) :
      Quiet s c { c with phase := .removing (blockedResponse id) }
  | foundOpen (g : ℕ) (singleton : NetworkSingleton) (id : ℤ) (hphase : c.phase = .inserted)
      (hsingleton : c.singleton = some g) (hg : s.singletons[g]? = some singleton)
      (hid : c.id = some id) (hopen : singleton.blocked = false) :
      Quiet s c { c with phase := .notBlocked }
  | noProtocol (g : ℕ) (singleton : NetworkSingleton) (id : ℤ) (hphase : c.phase = .notBlocked)
      (hsingleton : c.singleton = some g) (hg : s.singletons[g]? = some singleton)
      (hid : c.id = some id) (hprotocol : singleton.protocol = false) :
      Quiet s c { c with phase := .removing (.simple id (-4) "Offline".toList) }
  | gotProtocol (g : ℕ) (singleton : NetworkSingleton) (id : ℤ) (hphase : c.phase = .notBlocked)
      (hsingleton : c.singleton = some g) (hg : s.singletons[g]? = some singleton)
      (hid : c.id = some id) (hprotocol : singleton.protocol = true) :
      Quiet s c { c with phase := .handingOver }
  | accepted (id : ℤ) (hphase : c.phase = .handingOver) (hid : c.id = some id) :
      Quiet s c { c with accepted := true, phase := .waiting }
  | refused (id : ℤ) (error : NetworkProtocol.ErrorCode) (hphase : c.phase = .handingOver)
      (hid : c.id = some id) (herror : error ≠ .errorNone) :
      Quiet s c { c with
        phase := .removing (NetworkProtocol.handleSynchronousNetworkErrors error id) }
  | responded (response : NetworkResponse) (hphase : c.phase = .waiting)
      (hid : c.id = some response.id) : Quiet s c { c with phase := .responded response }
  | lockedWeak (response : NetworkResponse) (hphase : c.phase = .responded response) :
      Quiet s c { c with
        holds := c.singleton.any fun g => s.Alive g, phase := .checking response }
  | passed (g : ℕ) (singleton : NetworkSingleton) (response : NetworkResponse)
      (hphase : c.phase = .checking response) (hsingleton : c.singleton = some g)
      (hg : s.singletons[g]? = some singleton)
      (hpassed : response.status = authenticationError → c.holds = true →
        singleton.certificateUpdateWasTriggered = true) :
      Quiet s c { c with phase := .removing response }
  | calledBack (response : NetworkResponse) (hphase : c.phase = .callingBack response) :
      Quiet s c { c with callbacks := c.callbacks ++ [response], holds := false, phase := .ended }
  | returned (hin : c.inSend = true) (hreturns : c.accepted = true ∨ c.phase = .ended) :
      Quiet s c { c with inSend := false }

/-- A step, with what it finds. -/
inductive Stepped (s : State) : Event → State → Prop where
  | newClient : Stepped s .newClient { s with clients := s.clients ++ [.new] }
  | begun (k : ℕ) (function : Call.Function) (hk : k < s.clients.length) :
      Stepped s (.calls k function) { s with calls := s.calls ++ [.begin k function] }
  | quiet {event : Event} (i : ℕ) (c c' : SendCall) (hi : s.calls[i]? = some (.send c))
      (h : Quiet s c c') : Stepped s event (s.setCall i (.send c'))
  | drewInvalid {event : Event} (i : ℕ) (c : SendCall) (hi : s.calls[i]? = some (.send c))
      (hphase : c.phase = .drawing false)
      (hid : nextId (s.increments + 1) = networkRequestIdInvalid) :
      Stepped s event ({ s with increments := s.increments + 1 }.setCall i
        (.send { c with phase := .drawing true }))
  | drew {event : Event} (i : ℕ) (c : SendCall) (again : Bool)
      (hi : s.calls[i]? = some (.send c)) (hphase : c.phase = .drawing again)
      (hid : nextId (s.increments + 1) = networkRequestIdInvalid → again = true) :
      Stepped s event ({ s with increments := s.increments + 1 }.setCall i
        (.send { c with id := some (nextId (s.increments + 1)), phase := .inserting }))
  | inserted {event : Event} (i : ℕ) (c : SendCall) (client : Network) (id : ℤ)
      (hi : s.calls[i]? = some (.send c)) (hclient : s.clients[c.client]? = some client)
      (hphase : c.phase = .inserting) (hid : c.id = some id) :
      Stepped s event
        ((s.setClient c.client { client with requestIds := client.requestIds ++ [id] }).setCall i
          (.send { c with phase := .inserted }))
  | triggered {event : Event} (i : ℕ) (c : SendCall) (g : ℕ) (singleton : NetworkSingleton)
      (response : NetworkResponse) (hi : s.calls[i]? = some (.send c))
      (hphase : c.phase = .checking response) (hsingleton : c.singleton = some g)
      (hg : s.singletons[g]? = some singleton) (hstatus : response.status = authenticationError)
      (hholds : c.holds = true) (hnot : singleton.certificateUpdateWasTriggered = false) :
      Stepped s event
        ((s.setSingleton g { singleton with certificateUpdateWasTriggered := true }).setCall i
          (.send { c with phase := .blocking response }))
  | blocked {event : Event} (i : ℕ) (c : SendCall) (g : ℕ) (singleton : NetworkSingleton)
      (response : NetworkResponse) (hi : s.calls[i]? = some (.send c))
      (hphase : c.phase = .blocking response) (hsingleton : c.singleton = some g)
      (hg : s.singletons[g]? = some singleton) :
      Stepped s event ((s.setSingleton g { singleton with blocked := true }).setCall i
        (.send { c with phase := .updating response }))
  | updated {event : Event} (i : ℕ) (c : SendCall) (g : ℕ) (singleton : NetworkSingleton)
      (response : NetworkResponse) (hi : s.calls[i]? = some (.send c))
      (hphase : c.phase = .updating response) (hsingleton : c.singleton = some g)
      (hg : s.singletons[g]? = some singleton) :
      Stepped s event
        ((s.setSingleton g { singleton with updates := singleton.updates + 1 }).setCall i
          (.send { c with phase := .removing response }))
  | removed {event : Event} (i : ℕ) (c : SendCall) (client : Network)
      (response : NetworkResponse) (hi : s.calls[i]? = some (.send c))
      (hclient : s.clients[c.client]? = some client) (hphase : c.phase = .removing response) :
      Stepped s event ((s.setClient c.client (client.remove response.id)).setCall i
        (.send { c with phase := .callingBack response }))
  | startRefused {event : Event} (i k : ℕ) (client : Network)
      (hi : s.calls[i]? = some (.start k .called)) (hclient : s.clients[k]? = some client)
      (hlocked : client.locked = false) (hstarted : client.started = true) :
      Stepped s event (s.setCall i (.start k (.returned false)))
  | startKept {event : Event} (i k g : ℕ) (client : Network)
      (hi : s.calls[i]? = some (.start k .called)) (hclient : s.clients[k]? = some client)
      (hlocked : client.locked = false) (hstarted : client.started = false)
      (hg : s.singletons.length = g + 1) (halive : s.Alive g) :
      Stepped s event ((s.setClient k { client with singleton := some g, locked := true }).setCall i
        (.start k (.initializing g)))
  | startMade {event : Event} (i k : ℕ) (client : Network)
      (hi : s.calls[i]? = some (.start k .called)) (hclient : s.clients[k]? = some client)
      (hlocked : client.locked = false) (hstarted : client.started = false)
      (hdead : ∀ g, s.singletons.length = g + 1 → ¬ s.Alive g) :
      Stepped s event
        (({ s with singletons := s.singletons ++ [NetworkSingleton.new] }.setClient k
          { client with singleton := some s.singletons.length, locked := true }).setCall i
            (.start k (.initializing s.singletons.length)))
  | initialized {event : Event} (i k g : ℕ) (client : Network) (singleton : NetworkSingleton)
      (hi : s.calls[i]? = some (.start k (.initializing g)))
      (hclient : s.clients[k]? = some client) (hg : s.singletons[g]? = some singleton) :
      Stepped s event
        (((({ s with nextClientId := NetworkClients.nextClientId s.nextClientId }.setSingleton g
          { singleton with protocol := true }).setClient k
            { client with id := NetworkClients.nextClientId s.nextClientId, locked := false })).setCall
              i (.start k (.returned true)))
  | notInitialized {event : Event} (i k g : ℕ) (client : Network)
      (hi : s.calls[i]? = some (.start k (.initializing g)))
      (hclient : s.clients[k]? = some client) :
      Stepped s event ((s.setClient k { client with singleton := none, locked := false }).setCall i
        (.start k (.returned false)))
  | stopRefused {event : Event} (i k : ℕ) (client : Network)
      (hi : s.calls[i]? = some (.stop k .called)) (hclient : s.clients[k]? = some client)
      (hlocked : client.locked = false) (hstarted : client.started = false) :
      Stepped s event (s.setCall i (.stop k (.returned false)))
  | stopped {event : Event} (i k : ℕ) (client : Network)
      (hi : s.calls[i]? = some (.stop k .called)) (hclient : s.clients[k]? = some client)
      (hlocked : client.locked = false) (hstarted : client.started = true) :
      Stepped s event ((s.setClient k { client with id := clientIdInvalid, locked := true }).setCall i
        (.stop k .clearing))
  | cleared {event : Event} (i k : ℕ) (client : Network)
      (hi : s.calls[i]? = some (.stop k .clearing)) (hclient : s.clients[k]? = some client) :
      Stepped s event
        ((s.setClient k { client with singleton := none, requestIds := [], locked := false }).setCall
          i (.stop k (.cancelling client.singleton client.requestIds)))
  | stopReturned {event : Event} (i k : ℕ) (singleton : Option ℕ)
      (hi : s.calls[i]? = some (.stop k (.cancelling singleton []))) :
      Stepped s event (s.setCall i (.stop k (.returned true)))
  | stopSkipped {event : Event} (i k g : ℕ) (id : ℤ) (ids : List ℤ) (singleton : NetworkSingleton)
      (hi : s.calls[i]? = some (.stop k (.cancelling (some g) (id :: ids))))
      (hg : s.singletons[g]? = some singleton) (hprotocol : singleton.protocol = false) :
      Stepped s event (s.setCall i (.stop k (.cancelling (some g) ids)))
  | stopCancelled {event : Event} (i k g : ℕ) (id : ℤ) (ids : List ℤ)
      (singleton : NetworkSingleton)
      (hi : s.calls[i]? = some (.stop k (.cancelling (some g) (id :: ids))))
      (hg : s.singletons[g]? = some singleton) (hprotocol : singleton.protocol = true) :
      Stepped s event ({ s with cancels := s.cancels ++ [(g, id)] }.setCall i
        (.stop k (.cancelling (some g) ids)))
  | cancelBegan {event : Event} (i k : ℕ) (id : ℤ) (ifPending : Bool) (phase : CancelPhase)
      (hi : s.calls[i]? = some (.cancel k id ifPending .called))
      (hphase : phase = .started ∨ phase = .returned false) :
      Stepped s event (s.setCall i (.cancel k id ifPending phase))
  | cancelLooked {event : Event} (i k g : ℕ) (id : ℤ) (ifPending : Bool) (client : Network)
      (hi : s.calls[i]? = some (.cancel k id ifPending .started))
      (hclient : s.clients[k]? = some client) (hlocked : client.locked = false)
      (hsingleton : client.singleton = some g) :
      Stepped s event (s.setCall i (.cancel k id ifPending
        (if ifPending then .cancelling g else .removing g)))
  | cancelFoundNone {event : Event} (i k : ℕ) (id : ℤ) (ifPending : Bool) (client : Network)
      (hi : s.calls[i]? = some (.cancel k id ifPending .started))
      (hclient : s.clients[k]? = some client) (hlocked : client.locked = false)
      (hsingleton : client.singleton = none) :
      Stepped s event (s.setCall i (.cancel k id ifPending (.returned false)))
  | cancelRemoved {event : Event} (i k g : ℕ) (id : ℤ) (ifPending : Bool) (client : Network)
      (hi : s.calls[i]? = some (.cancel k id ifPending (.removing g)))
      (hclient : s.clients[k]? = some client) :
      Stepped s event ((s.setClient k (client.remove id)).setCall i (.cancel k id ifPending
        (if ifPending then .returned true else .cancelling g)))
  | cancelSkipped {event : Event} (i k g : ℕ) (id : ℤ) (ifPending : Bool)
      (singleton : NetworkSingleton)
      (hi : s.calls[i]? = some (.cancel k id ifPending (.cancelling g)))
      (hg : s.singletons[g]? = some singleton) (hprotocol : singleton.protocol = false) :
      Stepped s event (s.setCall i (.cancel k id ifPending (.returned false)))
  | cancelled {event : Event} (i k g : ℕ) (id : ℤ) (ifPending : Bool) (phase : CancelPhase)
      (singleton : NetworkSingleton)
      (hi : s.calls[i]? = some (.cancel k id ifPending (.cancelling g)))
      (hg : s.singletons[g]? = some singleton) (hprotocol : singleton.protocol = true)
      (hphase : phase = .removing g ∧ ifPending = true ∨
        ifPending = false ∧ ∃ done, phase = .returned done) :
      Stepped s event ({ s with cancels := s.cancels ++ [(g, id)] }.setCall i
        (.cancel k id ifPending phase))
  | notPending {event : Event} (i k g : ℕ) (id : ℤ) (singleton : NetworkSingleton)
      (hi : s.calls[i]? = some (.cancel k id true (.cancelling g)))
      (hg : s.singletons[g]? = some singleton) (hprotocol : singleton.protocol = true) :
      Stepped s event (s.setCall i (.cancel k id true (.returned false)))
  | unblocked (g : ℕ) (singleton : NetworkSingleton) (hg : s.singletons[g]? = some singleton) :
      Stepped s .unblock (s.setSingleton g { singleton with blocked := false })
  | nothing : Stepped s .unblock s

theorem stepped_startGoesOn {s s' : State} {i k : ℕ} {client : Network} {phase : StartPhase}
    {event : Event} (hi : s.calls[i]? = some (.start k phase))
    (hclient : s.clients[k]? = some client) (h : startGoesOn s i k client phase = some s') :
    Stepped s event s' := by
  cases phase with
  | called =>
    unfold startGoesOn at h
    dsimp only at h
    split at h
    · cases h
    · rename_i hlocked
      have hunlocked := Bool.eq_false_iff.mpr hlocked
      split at h
      · rename_i hstarted
        cases h
        exact .startRefused i k client hi hclient hunlocked hstarted
      · rename_i hstarted
        have hnot := Bool.eq_false_iff.mpr hstarted
        unfold State.singletonInstance at h
        split at h
        · rename_i hlast
          cases h
          have hlength : s.singletons.length = s.singletons.length - 1 + 1 := by
            have := List.length_pos_iff.mpr hlast.1
            omega
          exact .startKept i k _ client hi hclient hunlocked hnot hlength hlast.2
        · rename_i hlast
          cases h
          refine .startMade i k client hi hclient hunlocked hnot fun g hlength halive => hlast ?_
          rw [hlength]
          refine ⟨List.ne_nil_of_length_eq_add_one hlength, halive⟩
  | initializing => cases h
  | returned => cases h

theorem stepped_stopGoesOn {s s' : State} {i k : ℕ} {client : Network} {phase : StopPhase}
    {event : Event} (hi : s.calls[i]? = some (.stop k phase))
    (hclient : s.clients[k]? = some client) (h : stopGoesOn s i k client phase = some s') :
    Stepped s event s' := by
  cases phase with
  | called =>
    unfold stopGoesOn at h
    dsimp only at h
    split at h
    · cases h
    · rename_i hlocked
      have hunlocked := Bool.eq_false_iff.mpr hlocked
      split at h
      · rename_i hstarted
        cases h
        exact .stopped i k client hi hclient hunlocked hstarted
      · rename_i hstarted
        cases h
        exact .stopRefused i k client hi hclient hunlocked (Bool.eq_false_iff.mpr hstarted)
  | clearing =>
    cases h
    exact .cleared i k client hi hclient
  | cancelling singleton ids =>
    cases ids with
    | nil =>
      cases h
      exact .stopReturned i k singleton hi
    | cons id ids =>
      cases singleton with
      | none => cases h
      | some g =>
        unfold stopGoesOn at h
        dsimp only at h
        split at h
        · rename_i singleton hg
          simp only [Option.ite_none_left_eq_some, Bool.not_eq_true, Option.some.injEq] at h
          obtain ⟨hprotocol, rfl⟩ := h
          exact .stopSkipped i k g id ids singleton hi hg hprotocol
        · cases h
  | returned => cases h

theorem stepped_cancelGoesOn {s s' : State} {i k : ℕ} {client : Network} {id : ℤ}
    {ifPending : Bool} {phase : CancelPhase} {event : Event}
    (hi : s.calls[i]? = some (.cancel k id ifPending phase))
    (hclient : s.clients[k]? = some client)
    (h : cancelGoesOn s i k client id ifPending phase = some s') : Stepped s event s' := by
  cases phase with
  | called =>
    cases h
    refine .cancelBegan i k id ifPending _ hi ?_
    split
    · exact .inl rfl
    · exact .inr rfl
  | started =>
    unfold cancelGoesOn at h
    dsimp only at h
    split at h
    · cases h
    · rename_i hlocked
      have hunlocked := Bool.eq_false_iff.mpr hlocked
      split at h
      · rename_i g hg
        cases h
        exact .cancelLooked i k g id ifPending client hi hclient hunlocked hg
      · rename_i hnone
        cases h
        exact .cancelFoundNone i k id ifPending client hi hclient hunlocked hnone
  | removing g =>
    cases h
    exact .cancelRemoved i k g id ifPending client hi hclient
  | cancelling g =>
    unfold cancelGoesOn at h
    dsimp only at h
    split at h
    · rename_i singleton hg
      simp only [Option.ite_none_left_eq_some, Bool.not_eq_true, Option.some.injEq] at h
      obtain ⟨hprotocol, rfl⟩ := h
      exact .cancelSkipped i k g id ifPending singleton hi hg hprotocol
    · cases h
  | returned => cases h

/-- A step at a singleton that the call has a pointer to. -/
theorem bind_singletons {s : State} {c : SendCall} {singleton : NetworkSingleton}
    (h : c.singleton.bind (s.singletons[·]?) = some singleton) :
    ∃ g, c.singleton = some g ∧ s.singletons[g]? = some singleton :=
  Option.bind_eq_some_iff.mp h

theorem stepped_sendGoesOn {s s' : State} {i : ℕ} {client : Network} {c : SendCall}
    {event : Event} (hi : s.calls[i]? = some (.send c))
    (hclient : s.clients[c.client]? = some client) (h : sendGoesOn s i client c = some s') :
    Stepped s event s' := by
  unfold sendGoesOn at h
  dsimp only at h
  cases hphase : c.phase with
  | called =>
    rw [hphase] at h
    dsimp only at h
    simp only [Option.ite_none_left_eq_some, Bool.not_eq_true, Option.some.injEq] at h
    obtain ⟨hlocked, rfl⟩ := h
    exact .quiet i c _ hi (.got client hphase hclient hlocked)
  | gotSingleton =>
    rw [hphase] at h
    cases h
    split
    · rename_i hready
      exact .quiet i c _ hi (.started client hphase hclient hready.1 hready.2)
    · rename_i hready
      refine .quiet i c _ hi (.offline client hphase hclient fun hstarted => ?_)
      exact Option.not_isSome_iff_eq_none.mp fun hsome => hready ⟨hstarted, hsome⟩
  | started =>
    rw [hphase] at h
    simp only [Option.ite_none_left_eq_some, Bool.not_eq_true, Option.some.injEq] at h
    obtain ⟨hlocked, rfl⟩ := h
    exact .quiet i c _ hi (.configured client hphase hclient hlocked)
  | drawing again =>
    rw [hphase] at h
    dsimp only at h
    split at h
    · rename_i hagain
      cases h
      obtain ⟨hid, hfirst⟩ := hagain
      obtain rfl : again = false := by simpa using hfirst
      exact .drewInvalid i c hi hphase hid
    · rename_i hagain
      cases h
      refine .drew i c again hi hphase fun hid => ?_
      simpa [hid] using hagain
  | inserting =>
    rw [hphase] at h
    dsimp only at h
    split at h
    · rename_i id hid
      cases h
      exact .inserted i c client id hi hclient hphase hid
    · cases h
  | inserted =>
    rw [hphase] at h
    dsimp only at h
    split at h
    · rename_i singleton id hsingleton hid
      obtain ⟨g, hc, hg⟩ := bind_singletons hsingleton
      cases h
      split
      · rename_i hblocked
        exact .quiet i c _ hi (.foundBlocked g singleton id hphase hc hg hid hblocked)
      · rename_i hblocked
        exact .quiet i c _ hi
          (.foundOpen g singleton id hphase hc hg hid (Bool.eq_false_iff.mpr hblocked))
    · cases h
  | notBlocked =>
    rw [hphase] at h
    dsimp only at h
    split at h
    · rename_i singleton id hsingleton hid
      obtain ⟨g, hc, hg⟩ := bind_singletons hsingleton
      cases h
      split
      · rename_i hprotocol
        exact .quiet i c _ hi (.gotProtocol g singleton id hphase hc hg hid hprotocol)
      · rename_i hprotocol
        exact .quiet i c _ hi
          (.noProtocol g singleton id hphase hc hg hid (Bool.eq_false_iff.mpr hprotocol))
    · cases h
  | responded response =>
    rw [hphase] at h
    cases h
    exact .quiet i c _ hi (.lockedWeak response hphase)
  | checking response =>
    rw [hphase] at h
    dsimp only at h
    split at h
    · rename_i g hc
      split at h
      · rename_i singleton hg
        split at h
        · rename_i hfirst
          cases h
          exact .triggered i c g singleton response hi hphase hc hg hfirst.1 hfirst.2.1
            (by simpa using hfirst.2.2)
        · rename_i hfirst
          cases h
          refine .quiet i c _ hi (.passed g singleton response hphase hc hg fun hstatus hholds => ?_)
          simpa [hstatus, hholds] using hfirst
      · cases h
    · cases h
  | blocking response =>
    rw [hphase] at h
    dsimp only at h
    split at h
    · rename_i g hc
      split at h
      · rename_i singleton hg
        cases h
        exact .blocked i c g singleton response hi hphase hc hg
      · cases h
    · cases h
  | updating response =>
    rw [hphase] at h
    dsimp only at h
    split at h
    · rename_i g hc
      split at h
      · rename_i singleton hg
        cases h
        exact .updated i c g singleton response hi hphase hc hg
      · cases h
    · cases h
  | removing response =>
    rw [hphase] at h
    cases h
    exact .removed i c client response hi hclient hphase
  | callingBack response =>
    rw [hphase] at h
    cases h
    exact .quiet i c _ hi (.calledBack response hphase)
  | handingOver | waiting | ended =>
    rw [hphase] at h
    cases h

theorem stepped_cancelled {s s' : State} {i : ℕ} {done : Bool} {event : Event}
    (h : NetworkClients.cancelled s i done = some s') : Stepped s event s' := by
  unfold NetworkClients.cancelled at h
  split at h
  · rename_i k g id ids hi
    obtain ⟨singleton, hg, h⟩ := Option.bind_eq_some_iff.mp h
    simp only [Option.ite_none_right_eq_some, Option.some.injEq] at h
    obtain ⟨hprotocol, rfl⟩ := h
    exact .stopCancelled i k g id ids singleton hi hg hprotocol
  · rename_i k id ifPending g hi
    obtain ⟨singleton, hg, h⟩ := Option.bind_eq_some_iff.mp h
    simp only [Option.ite_none_right_eq_some, Option.some.injEq] at h
    obtain ⟨hprotocol, rfl⟩ := h
    cases ifPending with
    | false => exact .cancelled i k g id false _ singleton hi hg hprotocol (.inr ⟨rfl, done, rfl⟩)
    | true =>
      cases done with
      | false => exact .notPending i k g id singleton hi hg hprotocol
      | true => exact .cancelled i k g id true _ singleton hi hg hprotocol (.inl ⟨rfl, rfl⟩)
  · cases h

theorem stepped_handedOver {s s' : State} {i : ℕ} {error : NetworkProtocol.ErrorCode}
    {event : Event} (h : NetworkClients.handedOver s i error = some s') : Stepped s event s' := by
  unfold NetworkClients.handedOver at h
  split at h
  · rename_i c hi
    split at h
    · rename_i id hphase hid
      cases h
      split
      · exact .quiet i c _ hi (.accepted id hphase hid)
      · rename_i herror
        exact .quiet i c _ hi (.refused id error hphase hid herror)
    · cases h
  · cases h

/-- **Inversion of a step.** -/
theorem stepped_of_step {s s' : State} {event : Event} (h : step s event = some s') :
    Stepped s event s' := by
  cases event with
  | newClient =>
    cases h
    exact .newClient
  | calls k function =>
    simp only [step, Option.ite_none_right_eq_some, Option.some.injEq] at h
    obtain ⟨hk, rfl⟩ := h
    exact .begun k function hk
  | goOn i =>
    obtain ⟨call, hi, h⟩ := Option.bind_eq_some_iff.mp h
    obtain ⟨client, hclient, h⟩ := Option.bind_eq_some_iff.mp h
    cases call with
    | start => exact stepped_startGoesOn hi hclient h
    | stop => exact stepped_stopGoesOn hi hclient h
    | cancel => exact stepped_cancelGoesOn hi hclient h
    | send => exact stepped_sendGoesOn hi hclient h
  | initialized i ok =>
    unfold step at h
    dsimp only at h
    split at h
    · rename_i k g hi
      obtain ⟨client, hclient, h⟩ := Option.bind_eq_some_iff.mp h
      obtain ⟨singleton, hg, h⟩ := Option.bind_eq_some_iff.mp h
      cases h
      unfold NetworkClients.initialized
      split
      · exact .initialized i k g client singleton hi hclient hg
      · exact .notInitialized i k g client hi hclient
    · cases h
  | handedOver i error => exact stepped_handedOver h
  | cancelled i done => exact stepped_cancelled h
  | responds i response =>
    unfold step at h
    dsimp only at h
    split at h
    · rename_i c hi
      simp only [Option.ite_none_right_eq_some, Option.some.injEq] at h
      obtain ⟨⟨hphase, hid⟩, rfl⟩ := h
      exact .quiet i c _ hi (.responded response hphase hid)
    · cases h
  | returns i =>
    unfold step at h
    dsimp only at h
    split at h
    · rename_i c hi
      simp only [Option.ite_none_right_eq_some, Option.some.injEq] at h
      obtain ⟨⟨hin, hreturns⟩, rfl⟩ := h
      exact .quiet i c _ hi (.returned hin hreturns)
    · cases h
  | unblock =>
    unfold step at h
    dsimp only at h
    split at h
    · rename_i singleton hlast
      rw [List.getLast?_eq_getElem?] at hlast
      split at h
      · cases h
        exact .unblocked _ singleton hlast
      · cases h
        exact .nothing
    · cases h
      exact .nothing

end OlpEdgeSdk.Analysis.NetworkClientRuns

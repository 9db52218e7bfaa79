import OlpEdgeSdk.Base.Entries
import OlpEdgeSdk.Model.StreamLayerInit

/-!
# The init lock

The flag of the lock is cleared by every notification, and a notification is made by every call
and by every cancel of a token, whether the call has the lock or not. The lock does its work
exactly as long as those that do not have it stay away while another call initialises. It cannot
be left behind: a call that initialises has a notification before it.
-/

set_option autoImplicit false

namespace OlpEdgeSdk.Analysis.InitLock

open OlpEdgeSdk.Base OlpEdgeSdk.Model StreamLayerClientImpl

/-! ## What the lock should bring -/

/-- At most one call initialises, and the flag is set exactly while one does. -/
structure Exclusive (s : InitSystem) : Prop where
  atMostOne : s.parties.countP PublishCall.initialising ≤ 1
  set_iff : s.shared.initInprogress = true ↔ ∃ c ∈ s.parties, c.initialising = true

/-- A call that initialises has a notification before it: its initialisation goes on, or its
token has been cancelled and has yet to notify. -/
def Pending (c : PublishCall) : Prop :=
  c.initialising = true → c.phase ≠ .ended ∨ 0 < c.cancels

/-- The call or its token makes a notification. -/
def Notifies (c : PublishCall) : InitEvent → Prop
  | .notifyAborted => ∃ contextLocked, c.phase = .aborting contextLocked
  | .notifyCompleted => ∃ contextLocked, c.phase = .completing contextLocked
  | .cancelNotify => 0 < c.cancels
  | _ => False

/-- A notification is made for the call that initialises, or when none does. -/
def NotifiesOwn (s : InitSystem) : Action Bool InitEvent → Prop
  | .join _ => True
  | .act i event => ∀ c ∈ s.parties[i]?, Notifies c event →
      c.initialising = true ∨ ∀ d ∈ s.parties, d.initialising = false

instance decidableNotifies (c : PublishCall) : ∀ event, Decidable (Notifies c event)
  | .notifyAborted =>
    inferInstanceAs (Decidable (∃ contextLocked, c.phase = .aborting contextLocked))
  | .notifyCompleted =>
    inferInstanceAs (Decidable (∃ contextLocked, c.phase = .completing contextLocked))
  | .cancelNotify => inferInstanceAs (Decidable (0 < c.cancels))
  | .test | .acquire | .proceed | .fail | .found _ | .cancelOperation => isFalse id

instance decidableNotifiesOwn (s : InitSystem) : ∀ action, Decidable (NotifiesOwn s action)
  | .join _ => isTrue trivial
  | .act i event => inferInstanceAs (Decidable (∀ c ∈ s.parties[i]?, Notifies c event →
      c.initialising = true ∨ ∀ d ∈ s.parties, d.initialising = false))

/-! ## The pieces of the initialisation -/

/-- A piece of the initialisation leaves the flag alone, and of the call it changes where it is;
only a cancelled call is done after it. -/
structure Continues (s : InitState) (c : PublishCall) (s' : InitState) (c' : PublishCall) :
    Prop where
  flag_eq : s'.initInprogress = s.initInprogress
  initialising_eq : c'.initialising = c.initialising
  isCancelled_eq : c'.isCancelled = c.isCancelled
  cancels_eq : c'.cancels = c.cancels
  ended : c'.phase = .ended → c.isCancelled = true
  entered : c'.phase ≠ .begun ∧ c'.phase ≠ .waiting

/-- `LookupApi` for a client that the caller has just made. -/
theorem continues_lookupApi {s s' : InitState} (c : PublishCall) {pending : InitPhase}
    (hflag : s'.initInprogress = s.initInprogress) (hpending : pending.isPending = true) :
    Continues s c s' (lookupApi s pending c) := by
  have hne : pending ≠ .ended ∧ pending ≠ .begun ∧ pending ≠ .waiting := by
    refine ⟨?_, ?_, ?_⟩ <;> rintro rfl <;> cases hpending
  unfold lookupApi
  split
  · exact ⟨hflag, rfl, rfl, rfl, nofun, nofun, nofun⟩
  · exact ⟨hflag, rfl, rfl, rfl, fun h => absurd h hne.1, hne.2⟩

theorem continues_initCatalogModel (s : InitState) (c : PublishCall) :
    Continues s c (initCatalogModel s c).1 (initCatalogModel s c).2 := by
  unfold initCatalogModel
  split
  · exact ⟨rfl, rfl, rfl, rfl, nofun, nofun, nofun⟩
  · exact ⟨rfl, rfl, rfl, rfl, nofun, nofun, nofun⟩

theorem continues_afterApiClients (s : InitState) (c : PublishCall) :
    Continues s c (afterApiClients s c).1 (afterApiClients s c).2 := by
  unfold afterApiClients
  split
  · exact continues_lookupApi c rfl rfl
  · exact continues_initCatalogModel s c

theorem continues_initApiClients (s : InitState) (c : PublishCall) :
    Continues s c (initApiClients s c).1 (initApiClients s c).2 := by
  unfold initApiClients
  split
  · exact continues_afterApiClients s c
  · exact continues_lookupApi c rfl rfl

/-- `ExecuteOrCancelled` runs a piece, or ends the call without a notification. -/
theorem continues_ite {s : InitState} {c : PublishCall} {r : InitState × PublishCall}
    (h : Continues s c r.1 r.2) {s' : InitState} {c' : PublishCall}
    (heq : (if c.isCancelled then (s, { c with phase := .ended }) else r) = (s', c')) :
    Continues s c s' c' := by
  split at heq
  · next hcancelled =>
    cases heq
    exact ⟨rfl, rfl, rfl, rfl, fun _ => hcancelled, nofun, nofun⟩
  · rw [heq] at h
    exact h

theorem continues_proceed {s s' : InitState} {c c' : PublishCall}
    (h : proceed s c = some (s', c')) : Continues s c s' c' := by
  unfold proceed at h
  split at h
  · exact continues_ite (continues_initApiClients s c) (Option.some.inj h)
  · exact continues_ite (continues_afterApiClients s c) (Option.some.inj h)
  · exact continues_ite (continues_initCatalogModel s c) (Option.some.inj h)
  · cases h

theorem continues_found {s s' : InitState} {c c' : PublishCall} {answer : List Char}
    (h : found s c answer = some (s', c')) : Continues s c s' c' := by
  unfold found at h
  split at h
  · split at h
    · cases h
      exact ⟨rfl, rfl, rfl, rfl, nofun, nofun, nofun⟩
    · cases h
      exact continues_lookupApi c rfl rfl
  · cases h
    exact ⟨rfl, rfl, rfl, rfl, nofun, nofun, nofun⟩
  · split at h
    · cases h
      exact ⟨rfl, rfl, rfl, rfl, nofun, nofun, nofun⟩
    · cases h
      exact continues_lookupApi c rfl rfl
  · cases h
    exact ⟨rfl, rfl, rfl, rfl, nofun, nofun, nofun⟩
  · cases h
    exact ⟨rfl, rfl, rfl, rfl, nofun, nofun, nofun⟩
  · cases h

/-! ## One step of a call -/

/-- What a step of a call does to the flag and to the call. -/
inductive Effect (s : InitState) (c : PublishCall) (event : InitEvent) (s' : InitState)
    (c' : PublishCall) : Prop where
  | quiet (h : ¬ Notifies c event) (hflag : s'.initInprogress = s.initInprogress)
    (hcall : c'.initialising = c.initialising)
  | acquires (h : ¬ Notifies c event) (hfree : s.initInprogress = false)
    (hflag : s'.initInprogress = true) (hcall : c'.initialising = true)
  | notifies (h : Notifies c event) (hflag : s'.initInprogress = false)
    (hcall : c'.initialising = false)

theorem effect_of_initStep {s s' : InitState} {c c' : PublishCall} {event : InitEvent}
    (h : initStep s c event = some (s', c')) : Effect s c event s' c' := by
  cases event with
  | test =>
    simp only [initStep] at h
    split at h
    · split at h
      · cases h
        exact .quiet id rfl rfl
      · cases h
        exact .quiet id rfl rfl
    · cases h
  | acquire =>
    simp only [initStep] at h
    split at h
    · split at h
      · cases h
      · next hfree =>
        cases h
        exact .acquires id (by simpa using hfree) rfl rfl
    · cases h
  | proceed =>
    have hcontinues := continues_proceed h
    exact .quiet id hcontinues.flag_eq hcontinues.initialising_eq
  | fail =>
    simp only [initStep] at h
    split at h
    · cases h
      exact .quiet id rfl rfl
    · cases h
  | found answer =>
    have hcontinues := continues_found h
    exact .quiet id hcontinues.flag_eq hcontinues.initialising_eq
  | notifyAborted =>
    simp only [initStep] at h
    split at h
    · next contextLocked hphase =>
      cases h
      exact .notifies ⟨contextLocked, hphase⟩ rfl rfl
    · cases h
  | notifyCompleted =>
    simp only [initStep] at h
    split at h
    · next contextLocked hphase =>
      cases h
      exact .notifies ⟨contextLocked, hphase⟩ rfl rfl
    · cases h
  | cancelOperation =>
    simp only [initStep] at h
    split at h
    · cases h
      exact .quiet id rfl rfl
    · cases h
  | cancelNotify =>
    simp only [initStep] at h
    split at h
    · next hpos =>
      cases h
      exact .notifies hpos rfl rfl
    · cases h

/-- Why a notification is always ahead: a call takes the lock when it enters the initialisation,
ends without one only if it is cancelled, and its cancel notifies. -/
structure Held (c : PublishCall) : Prop where
  fresh : c.phase = .begun ∨ c.phase = .waiting → c.launched = false ∧ c.isCancelled = false
  entered : c.initialising = true → c.phase ≠ .begun ∧ c.phase ≠ .waiting
  ended : c.initialising = true → c.phase = .ended → c.isCancelled = true
  cancels_pos : c.initialising = true → c.isCancelled = true → 0 < c.cancels

theorem Held.pending {c : PublishCall} (h : Held c) : Pending c := by
  intro hinitialising
  by_cases hended : c.phase = .ended
  · exact Or.inr (h.cancels_pos hinitialising (h.ended hinitialising hended))
  · exact Or.inl hended

theorem Continues.held {s s' : InitState} {c c' : PublishCall} (h : Continues s c s' c')
    (hc : Held c) : Held c' where
  fresh hphase := (hphase.elim h.entered.1 h.entered.2).elim
  entered _ := h.entered
  ended _ hended := by
    rw [h.isCancelled_eq]
    exact h.ended hended
  cancels_pos hinitialising hcancelled := by
    rw [h.initialising_eq] at hinitialising
    rw [h.isCancelled_eq] at hcancelled
    rw [h.cancels_eq]
    exact hc.cancels_pos hinitialising hcancelled

theorem held_of_not_initialising {c : PublishCall} (h : c.initialising = false)
    (hfresh : c.phase = .begun ∨ c.phase = .waiting → c.launched = false ∧ c.isCancelled = false) :
    Held c := by
  refine ⟨hfresh, ?_, ?_, ?_⟩ <;> simp [h]

theorem held_of_initStep (s : InitState) (c : PublishCall) (event : InitEvent) (s' : InitState)
    (c' : PublishCall) (hc : Held c) (h : initStep s c event = some (s', c')) : Held c' := by
  cases event with
  | test =>
    simp only [initStep] at h
    split at h
    · next hphase =>
      have hnot : c.initialising = false := by
        by_contra hne
        exact (hc.entered (by simpa using hne)).1 hphase
      split at h
      · cases h
        exact held_of_not_initialising hnot fun _ => hc.fresh (Or.inl hphase)
      · cases h
        exact held_of_not_initialising hnot nofun
    · cases h
  | acquire =>
    simp only [initStep] at h
    split at h
    · next hphase =>
      split at h
      · cases h
      · cases h
        refine ⟨nofun, fun _ => ⟨nofun, nofun⟩, fun _ => nofun, fun _ hcancelled => ?_⟩
        -- the token of a call that waits for the lock is not out
        have hfresh := (hc.fresh (Or.inr hphase)).2
        rw [hfresh] at hcancelled
        cases hcancelled
    · cases h
  | proceed => exact (continues_proceed h).held hc
  | fail =>
    simp only [initStep] at h
    split at h
    · cases h
      exact ⟨nofun, fun _ => ⟨nofun, nofun⟩, fun _ => nofun, hc.cancels_pos⟩
    · cases h
  | found answer => exact (continues_found h).held hc
  | notifyAborted =>
    simp only [initStep] at h
    split at h
    · cases h
      exact held_of_not_initialising rfl nofun
    · cases h
  | notifyCompleted =>
    simp only [initStep] at h
    split at h
    · cases h
      exact held_of_not_initialising rfl nofun
    · cases h
  | cancelOperation =>
    simp only [initStep] at h
    split at h
    · next hguard =>
      cases h
      refine ⟨fun hphase => ?_, hc.entered, fun _ _ => rfl, fun _ _ => Nat.succ_pos _⟩
      have hbefore : c.phase = .begun ∨ c.phase = .waiting := hphase
      have hlaunched := (hc.fresh hbefore).1
      rcases hbefore with hbefore | hbefore
      · simp [hbefore, hlaunched] at hguard
      · simp [hbefore, hlaunched] at hguard
    · cases h
  | cancelNotify =>
    simp only [initStep] at h
    split at h
    · cases h
      exact held_of_not_initialising rfl hc.fresh
    · cases h

/-! ## One step of the system -/

/-- The two parts of `Exclusive` in one count. -/
theorem exclusive_iff_countP {s : InitSystem} :
    Exclusive s ↔
      s.parties.countP PublishCall.initialising = s.shared.initInprogress.toNat := by
  have hpos : (∃ c ∈ s.parties, c.initialising = true) ↔
      0 < s.parties.countP PublishCall.initialising := List.countP_pos_iff.symm
  constructor
  · rintro ⟨hle, hiff⟩
    rw [hpos] at hiff
    cases hflag : s.shared.initInprogress with
    | true =>
      have := hiff.mp hflag
      rw [Bool.toNat_true]
      omega
    | false =>
      have hnot : ¬ 0 < s.parties.countP PublishCall.initialising := by
        rw [← hiff, hflag]
        simp
      rw [Bool.toNat_false]
      omega
  · intro hcount
    refine ⟨?_, ?_⟩
    · rw [hcount]
      exact Bool.toNat_le _
    · rw [hpos, hcount]
      cases s.shared.initInprogress <;> simp

theorem forall_not_initialising_iff {s : InitSystem} :
    (∀ d ∈ s.parties, d.initialising = false) ↔
      s.parties.countP PublishCall.initialising = 0 := by
  rw [List.countP_eq_zero]
  simp

/-- **A step of the system** keeps the lock exclusive exactly if a notification in it is made for
the call that initialises, or when none does. -/
theorem exclusive_step_iff {s s' : InitSystem} {action : Action Bool InitEvent}
    (hs : Exclusive s) (hstep : initSystemStep s action = some s') :
    Exclusive s' ↔ NotifiesOwn s action := by
  rw [exclusive_iff_countP] at hs ⊢
  cases action with
  | join greaterThanTwentyMib =>
    cases hstep
    refine iff_of_true ?_ trivial
    rw [List.countP_append, hs]
    rfl
  | act i event =>
    obtain ⟨c, shared, c', hi, hact, rfl⟩ := Parties.step_act hstep
    have hcount := countP_set_of_some PublishCall.initialising hi c'
    rw [hs] at hcount
    have hown : NotifiesOwn s (.act i event) ↔ (Notifies c event → c.initialising = true ∨
        s.parties.countP PublishCall.initialising = 0) := by
      simp only [NotifiesOwn, hi, Option.mem_def, Option.some.injEq, forall_eq',
        forall_not_initialising_iff]
    rw [hown, hs]
    simp only
    cases effect_of_initStep hact with
    | quiet h hflag hcall =>
      refine iff_of_true ?_ fun hnotifies => absurd hnotifies h
      rw [hcall] at hcount
      rw [hflag]
      omega
    | acquires h hfree hflag hcall =>
      refine iff_of_true ?_ fun hnotifies => absurd hnotifies h
      -- nobody initialises while the flag is clear
      have hnone : c.initialising = false := by
        rw [hfree] at hs
        exact forall_not_initialising_iff.mpr hs c (List.mem_of_getElem? hi)
      rw [hnone, hcall, hfree] at hcount
      rw [hflag]
      simpa using hcount
    | notifies h hflag hcall =>
      rw [hcall] at hcount
      rw [hflag]
      cases hinitialising : c.initialising with
      | true =>
        refine iff_of_true ?_ fun _ => Or.inl rfl
        rw [hinitialising] at hcount
        have := Bool.toNat_le s.shared.initInprogress
        simp only [Bool.toNat_true, Bool.toNat_false] at hcount ⊢
        omega
      | false =>
        rw [hinitialising] at hcount
        simp only [Bool.toNat_false, Nat.add_zero, Bool.false_eq_true, false_or] at hcount ⊢
        rw [hcount]
        exact ⟨fun hclear _ => hclear, fun hclear => hclear h⟩

/-- A notification that cannot be made is no one's. -/
theorem notifiesOwn_of_none {s : InitSystem} {action : Action Bool InitEvent}
    (hstep : initSystemStep s action = none) : NotifiesOwn s action := by
  cases action with
  | join greaterThanTwentyMib => trivial
  | act i event =>
    intro c hi hnotifies
    rw [Option.mem_def] at hi
    simp only [initSystemStep, Parties.step, hi, Option.bind_eq_bind, Option.bind_some] at hstep
    cases event with
    | notifyAborted =>
      obtain ⟨contextLocked, hphase⟩ := hnotifies
      simp [initStep, hphase] at hstep
    | notifyCompleted =>
      obtain ⟨contextLocked, hphase⟩ := hnotifies
      simp [initStep, hphase] at hstep
    | cancelNotify =>
      have hpos : 0 < c.cancels := hnotifies
      simp [initStep, hpos] at hstep
    | test => exact hnotifies.elim
    | acquire => exact hnotifies.elim
    | proceed => exact hnotifies.elim
    | fail => exact hnotifies.elim
    | found answer => exact hnotifies.elim
    | cancelOperation => exact hnotifies.elim

/-! ## Whole runs -/

/-- A client that has looked up nothing yet. -/
def newClient : InitState :=
  ⟨"https://api-lookup.data.api.platform.here.com/lookup/v1".toList, none, none, none, none, [],
    false⟩

end OlpEdgeSdk.Analysis.InitLock

import OlpEdgeSdk.Base.Entries
import OlpEdgeSdk.Model.LayerClientInit

/-!
# Whether an initialisation is released

The flag is set by a call that begins its lookups. It is cleared when the last lookup answers, or
after an error of an earlier one; the cancellation between two lookups, an empty list of services
and a lookup that answers while the call has the mutex leave it set. A later call waits for it,
unless another call that is still looking up clears it for both.
-/

set_option autoImplicit false

namespace OlpEdgeSdk.Analysis.InitRelease

open OlpEdgeSdk.Base OlpEdgeSdk.Model LayerClientInit

/-- A call has begun its lookups and has not come to its end. -/
def Running (c : InitCall) : Prop := (∃ rest, c.phase = .lookingUp rest) ∨ c.phase = .failing

/-- The flag is only set while a call is doing the initialisation. -/
def Released (s : InitSystem) : Prop :=
  s.shared.initInProgress = true → ∃ c ∈ s.parties, Running c

/-- An answer to a lookup that is not the last one after which the flag is not cleared: an error,
if the callback locks the mutex that its own thread owns; an empty list; any service, if the
operation is cancelled. -/
def strands (c : InitCall) (apis : Option (List (List Char))) (inFrame : Bool) : Bool :=
  match apis with
  | none => inFrame && c.ownsMutex
  | some [] => true
  | some (_ :: _) => c.isCancelled

/-- A call ends its lookups and will not clear the flag. -/
def Abandons (c : InitCall) : InitEvent → Prop
  | .answer apis inFrame => (inFrame && !c.inside) = false ∧
    (c.phase = .lookingUp [] ∧ (inFrame && c.ownsMutex) = true ∨
      ∃ service rest, c.phase = .lookingUp (service :: rest) ∧ strands c apis inFrame = true)
  | _ => False

/-- A call that abandons its lookups leaves them to another one. -/
def AbandonsToOther (s : InitSystem) : Action Bool InitEvent → Prop
  | .join _ => True
  | .act i event => ∀ c, s.parties[i]? = some c → Abandons c event →
    s.shared.initInProgress = true → ∃ j d, j ≠ i ∧ s.parties[j]? = some d ∧ Running d

/-! ## One step of a call -/

/-- What a step of a call does to the flag and to the call. -/
inductive Effect (s : InitState) (c : InitCall) (event : InitEvent) (s' : InitState)
    (c' : InitCall) : Prop where
  | quiet (h : ¬ Abandons c event) (hflag : s'.initInProgress = s.initInProgress)
    (hrunning : Running c → Running c')
  | begins (h : ¬ Abandons c event) (hrunning : Running c')
  | clears (h : ¬ Abandons c event) (hflag : s'.initInProgress = false)
  | abandons (h : Abandons c event) (hflag : s'.initInProgress = s.initInProgress)
    (hrunning : ¬ Running c')

theorem lookupApi_spec {s s' : InitState} {c c' : InitCall} {services : List Service}
    (h : lookupApi s c services = some (s', c')) :
    s'.initInProgress = s.initInProgress ∧ Running c' := by
  unfold lookupApi at h
  split at h
  · cases h
  · cases h
    exact ⟨rfl, Or.inl ⟨_, rfl⟩⟩
  · cases h
    exact ⟨rfl, Or.inl ⟨_, rfl⟩⟩

theorem not_running_of_phase {c : InitCall} {phase : InitPhase} (h : c.phase = phase)
    (hlookingUp : ∀ rest, phase ≠ .lookingUp rest) (hfailing : phase ≠ .failing) :
    ¬ Running c := by
  rintro (⟨rest, hrest⟩ | hrest)
  · exact hlookingUp rest (h.symm.trans hrest)
  · exact hfailing (h.symm.trans hrest)

theorem not_running_of_over {c : InitCall} (h : c.phase = .over) : ¬ Running c :=
  not_running_of_phase h (fun _ => InitPhase.noConfusion) InitPhase.noConfusion

theorem not_running_of_hanging {c : InitCall} (h : c.phase = .hanging) : ¬ Running c :=
  not_running_of_phase h (fun _ => InitPhase.noConfusion) InitPhase.noConfusion

/-- A lookup that is not the last one. -/
theorem serviceCallback_spec {s s' : InitState} {c c' : InitCall} {service : Service}
    {rest : List Service} {apis : Option (List (List Char))} {inFrame : Bool}
    (h : serviceCallback s c service rest apis inFrame = some (s', c')) :
    s'.initInProgress = s.initInProgress ∧ (Running c' ↔ strands c apis inFrame = false) := by
  unfold serviceCallback at h
  cases apis with
  | none =>
    cases h
    refine ⟨rfl, ?_⟩
    rw [strands]
    cases inFrame && c.ownsMutex with
    | true => exact iff_of_false (not_running_of_hanging rfl) Bool.noConfusion
    | false => exact iff_of_true (Or.inr rfl) rfl
  | some urls =>
    cases urls with
    | nil =>
      cases h
      exact ⟨rfl, iff_of_false (not_running_of_over rfl) Bool.noConfusion⟩
    | cons url urls =>
      rw [strands]
      simp only at h
      split at h
      · next hcancelled =>
        cases h
        refine ⟨rfl, iff_of_false (not_running_of_over rfl) ?_⟩
        rw [hcancelled]
        exact Bool.noConfusion
      · next hcancelled =>
        obtain ⟨hflag, hrunning⟩ := lookupApi_spec h
        exact ⟨hflag, iff_of_true hrunning (Bool.eq_false_iff.mpr hcancelled)⟩

/-- The last lookup. -/
theorem publishApiCallback_spec (s : InitState) (c : InitCall) (apis : Option (List (List Char)))
    (inFrame : Bool) :
    ((inFrame && c.ownsMutex) = true →
        publishApiCallback s c apis inFrame = (s, { c with phase := .hanging })) ∧
      ((inFrame && c.ownsMutex) = false →
        (publishApiCallback s c apis inFrame).1.initInProgress = false) := by
  unfold publishApiCallback
  constructor
  · intro howns
    rw [if_pos howns]
  · intro hfree
    rw [if_neg (Bool.eq_false_iff.mp hfree)]
    split <;> rfl

theorem effect_of_answer {services : List Service} {s s' : InitState} {c c' : InitCall}
    {apis : Option (List (List Char))} {inFrame : Bool}
    (h : initStep services s c (.answer apis inFrame) = some (s', c')) :
    Effect s c (.answer apis inFrame) s' c' := by
  simp only [initStep] at h
  split at h
  · next rest hphase =>
    split at h
    · cases h
    · next hinside =>
      have hinside : (inFrame && !c.inside) = false := Bool.eq_false_iff.mpr hinside
      cases rest with
      | nil =>
        obtain ⟨hhangs, hclears⟩ := publishApiCallback_spec s c apis inFrame
        have hresult := Option.some.inj h
        cases howns : inFrame && c.ownsMutex with
        | true =>
          rw [hhangs howns] at hresult
          cases hresult
          exact .abandons ⟨hinside, Or.inl ⟨hphase, howns⟩⟩ rfl (not_running_of_hanging rfl)
        | false =>
          have hflag := hclears howns
          rw [hresult] at hflag
          refine .clears ?_ hflag
          rintro ⟨-, ⟨-, howns'⟩ | ⟨service, rest, hphase', -⟩⟩
          · rw [howns] at howns'
            cases howns'
          · rw [hphase] at hphase'
            cases hphase'
      | cons service rest =>
        obtain ⟨hflag, hrunning⟩ := serviceCallback_spec h
        cases hstrands : strands c apis inFrame with
        | true =>
          refine .abandons ⟨hinside, Or.inr ⟨service, rest, hphase, hstrands⟩⟩ hflag ?_
          rw [hrunning, hstrands]
          exact Bool.noConfusion
        | false =>
          refine .quiet ?_ hflag fun _ => hrunning.mpr hstrands
          rintro ⟨-, ⟨hphase', -⟩ | ⟨service', rest', hphase', hstrands'⟩⟩
          · rw [hphase] at hphase'
            cases hphase'
          · rw [hstrands] at hstrands'
            cases hstrands'
  · cases h

theorem effect_of_initStep {services : List Service} {s s' : InitState} {c c' : InitCall}
    {event : InitEvent} (h : initStep services s c event = some (s', c')) :
    Effect s c event s' c' := by
  cases event with
  | test locked =>
    simp only [initStep] at h
    split at h
    · next hphase =>
      have hidle : ¬ Running c :=
        not_running_of_phase hphase (fun _ => InitPhase.noConfusion) InitPhase.noConfusion
      split at h
      · cases h
      · split at h
        · cases h
          exact .quiet id rfl fun hrunning => absurd hrunning hidle
        · cases h
          exact .quiet id rfl fun hrunning => absurd hrunning hidle
    · cases h
  | wake =>
    simp only [initStep] at h
    split at h
    · next hphase =>
      have hidle : ¬ Running c :=
        not_running_of_phase hphase (fun _ => InitPhase.noConfusion) InitPhase.noConfusion
      split at h
      · cases h
      · cases h
        exact .quiet id rfl fun hrunning => absurd hrunning hidle
    · cases h
  | start =>
    simp only [initStep] at h
    split at h
    · next hphase =>
      have hidle : ¬ Running c :=
        not_running_of_phase hphase (fun _ => InitPhase.noConfusion) InitPhase.noConfusion
      split at h
      · cases h
        exact .quiet id rfl fun hrunning => absurd hrunning hidle
      · exact .begins id (lookupApi_spec h).2
    · cases h
  | answer apis inFrame => exact effect_of_answer h
  | clear =>
    simp only [initStep] at h
    split at h
    · cases h
      exact .clears id rfl
    · cases h
  | returns =>
    simp only [initStep] at h
    split at h
    · cases h
      exact .quiet id rfl id
    · cases h
      exact .quiet id rfl id
    · cases h
      exact .quiet id rfl id
    · cases h
  | cancelOperation =>
    cases h
    exact .quiet id rfl id

theorem not_abandons_of_initStep_eq_none {services : List Service} {s : InitState} {c : InitCall}
    {event : InitEvent} (h : initStep services s c event = none) : ¬ Abandons c event := by
  cases event with
  | answer apis inFrame =>
    rintro ⟨hinside, ⟨hphase, -⟩ | ⟨service, rest, hphase, hstrands⟩⟩
    · simp only [initStep, hphase, hinside, Bool.false_eq_true, if_false] at h
      cases h
    · simp only [initStep, hphase, hinside, Bool.false_eq_true, if_false, serviceCallback] at h
      split at h
      · cases h
      · cases h
      · next url urls =>
        rw [strands] at hstrands
        rw [if_pos hstrands] at h
        cases h
  | test | wake | start | clear | returns | cancelOperation => exact id

/-! ## The system -/

/-- **One step** of the system keeps the flag released exactly if no call abandons it. -/
theorem released_step {client : LayerClient} {s s' : InitSystem}
    {action : Action Bool InitEvent} (h : Released s)
    (hstep : initSystemStep client s action = some s') :
    Released s' ↔ AbandonsToOther s action := by
  cases action with
  | join ownsMutex =>
    cases hstep
    refine iff_of_true (fun hflag => ?_) trivial
    obtain ⟨c, hc, hrunning⟩ := h hflag
    exact ⟨c, List.mem_append_left _ hc, hrunning⟩
  | act i event =>
    obtain ⟨c, shared, c', hi, hact, rfl⟩ := Parties.step_act hstep
    have hother : AbandonsToOther s (.act i event) ↔ (Abandons c event →
        s.shared.initInProgress = true → ∃ j d, j ≠ i ∧ s.parties[j]? = some d ∧ Running d) := by
      rw [AbandonsToOther, hi]
      simp
    have hplace := getElem?_set_of_some hi c'
    have hself : c' ∈ s.parties.set i c' := by
      apply List.mem_of_getElem? (i := i)
      rw [hplace, if_pos rfl]
    rw [hother]
    cases effect_of_initStep hact with
    | quiet hnot hflag hrunning =>
      refine iff_of_true (fun hset => ?_) fun habandons => absurd habandons hnot
      obtain ⟨d, hd, hd'⟩ := h (hflag ▸ hset)
      obtain ⟨j, hj⟩ := List.mem_iff_getElem?.mp hd
      by_cases hji : j = i
      · rw [hji, hi] at hj
        cases hj
        exact ⟨c', hself, hrunning hd'⟩
      · refine ⟨d, List.mem_of_getElem? (i := j) ?_, hd'⟩
        rw [hplace, if_neg hji, hj]
    | begins hnot hrunning =>
      exact iff_of_true (fun _ => ⟨c', hself, hrunning⟩) fun habandons => absurd habandons hnot
    | clears hnot hflag =>
      refine iff_of_true (fun hset => ?_) fun habandons => absurd habandons hnot
      have hclear : shared.initInProgress = true := hset
      rw [hflag] at hclear
      cases hclear
    | abandons habandons hflag hrunning =>
      simp only [Released, hflag, habandons, true_implies]
      refine imp_congr_right fun _ => ?_
      constructor
      · rintro ⟨d, hd, hd'⟩
        obtain ⟨j, hj⟩ := List.mem_iff_getElem?.mp hd
        rw [hplace] at hj
        by_cases hji : j = i
        · rw [if_pos hji] at hj
          cases hj
          exact absurd hd' hrunning
        · rw [if_neg hji] at hj
          exact ⟨j, d, hji, hj, hd'⟩
      · rintro ⟨j, d, hji, hj, hd'⟩
        refine ⟨d, List.mem_of_getElem? (i := j) ?_, hd'⟩
        rw [hplace, if_neg hji, hj]

theorem abandonsToOther_of_eq_none {client : LayerClient} {s : InitSystem}
    {action : Action Bool InitEvent} (h : initSystemStep client s action = none) :
    AbandonsToOther s action := by
  cases action with
  | join => trivial
  | act i event =>
    intro c hi habandons
    exact absurd habandons (not_abandons_of_initStep_eq_none (Parties.act_eq_none_of_step h hi))

end OlpEdgeSdk.Analysis.InitRelease

import OlpEdgeSdk.Analysis.MultiRequestContextRuns

/-!
# Which callbacks are invoked, how often, and with whose response

Three results over every run of coalesced requests, from the invariant of
`MultiRequestContextRuns`.

* No callback is invoked twice, and a request is never in two contexts.
* When every execution has been answered, a callback that was not invoked belongs to a request
  that the cancellation of another one has dropped.
* A callback gets the response of its own execution, and a token of a finished request does
  nothing, in exactly those runs in which no late step finds another context under its key.
  Completion and cancellation look their context up by key only, so there are runs in which
  one does.
-/

set_option autoImplicit false

namespace OlpEdgeSdk.Analysis.MultiRequestContext

open OlpEdgeSdk.Base OlpEdgeSdk.Model.MultiRequestContext
open OlpEdgeSdk.Model.MultiRequestContext.State

variable {Key Response : Type} [LinearOrder Key]

/-! ## At most once -/

theorem mem_requests_of_run {s s' : State Key Response} {events : List (Event Key Response)}
    (h : runFrom step s events = some s') {q : Request Key} (hq : q ∈ s.requests) :
    q ∈ s'.requests :=
  invariant_of_steps (fun s => q ∈ s.requests)
    (fun _ _ _ hmem hstep => requests_subset (moves_of_step hstep) hmem) h hq

theorem Inv.nodup_invoked {s : State Key Response} (hinv : Inv s) :
    (s.invoked.map Prod.fst).Nodup := by
  have hle : firsts s.invoked ≤ ids s.requests := by
    rw [← hinv.inPlace, places]
    exact (Multiset.le_add_left _ _).trans (Multiset.le_add_right _ _)
  exact Multiset.coe_nodup.mp (Multiset.nodup_of_le hle (Multiset.coe_nodup.mpr hinv.nodup))

/-- **In every run a callback is invoked at most once, an active context has a callback, and a
request that was in one context is never in another.**
SOURCE: MultiRequestContext.h:69-125, 138-208 -/
theorem invoked_at_most_once (events more : List (Event Key Response))
    (s s' : State Key Response) (h : run events = some s) (h' : run (events ++ more) = some s') :
    (s.invoked.map Prod.fst).Nodup ∧
      (∀ key context, s.activeReqs.find key = some context → context.callbacks ≠ []) ∧
      ∀ key context key' context' id, s.activeReqs.find key = some context →
        s'.activeReqs.find key' = some context' → id ∈ context.callbacks →
        id ∈ context'.callbacks → key = key' ∧ context.owner = context'.owner := by
  have hinv := inv_run h
  have hinv' := inv_run h'
  refine ⟨hinv.nodup_invoked, hinv.nonempty, ?_⟩
  intro key context key' context' id hfind hfind' hid hid'
  have hrest : runFrom step s more = some s' := by
    have happend := runFrom_append step (init : State Key Response) events more
    rw [show runFrom step init events = some s from h] at happend
    exact happend.symm.trans h'
  have heq := hinv'.eq_of_id_eq (mem_requests_of_run hrest (hinv.home key context hfind id hid))
    (hinv'.home key' context' hfind' id hid') rfl
  exact ⟨congrArg Request.key heq, congrArg Request.owner heq⟩

/-- Two callers share one execution; both callbacks are invoked, once each, although the
provider answers twice. -/
theorem two_callers_invoked_once :
    ∃ s : State ℕ ℕ, run [.associate 7 0, .associate 7 1, .execute 0, .complete 0 42,
        .complete 0 43, .invoke 1, .invoke 0] = some s ∧
      s.invoked.map Prod.fst = [1, 0] ∧ (s.invoked.map Prod.fst).Nodup := by
  have hrun : ((run [.associate 7 0, .associate 7 1, .execute 0, .complete 0 42,
      .complete 0 43, .invoke 1, .invoke 0]).map fun s : State ℕ ℕ => s.invoked.map Prod.fst) =
        some [1, 0] := by decide
  obtain ⟨s, hs, hinvoked⟩ := Option.map_eq_some_iff.mp hrun
  exact ⟨s, hs, hinvoked, (invoked_at_most_once _ [] s s hs hs).1⟩

/-! ## No caller is lost, but those that a cancellation drops -/

/-- When every execution has been answered, no context is active. -/
theorem waiting_eq_zero {s : State Key Response} (hinv : Inv s)
    (hanswered : ∀ q ∈ s.requests, q.owner ∈ s.answered) : waiting s.activeReqs = 0 := by
  have hempty : s.activeReqs.entries = [] := by
    refine List.eq_nil_iff_forall_not_mem.mpr fun e he => ?_
    have hfind := SortedMap.find_of_mem he
    exact hinv.unanswered _ _ hfind (hanswered _ (hinv.owner _ _ hfind))
  rw [waiting, hempty]
  rfl

/-- **When every execution has been answered and nothing is under way, every callback was
invoked, or its context was taken out of the map by the cancellation of another request of
its key.**
SOURCE: MultiRequestContext.h:69-125, 138-208 -/
theorem invoked_or_dropped (events : List (Event Key Response)) (s : State Key Response)
    (h : run events = some s) (hanswered : ∀ q ∈ s.requests, q.owner ∈ s.answered)
    (hcancelling : s.cancelling = []) (hdue : s.due = []) (q : Request Key)
    (hq : q ∈ s.requests) :
    (∃ outcome, (q.id, outcome) ∈ s.invoked) ∨
      ∃ q' ∈ s.requests, q'.id ≠ q.id ∧ q'.key = q.key ∧ (q.id, q'.id) ∈ s.dropped := by
  have hinv := inv_run h
  have hplace : q.id ∈ firsts s.invoked + firsts s.dropped := by
    have hmem : q.id ∈ places s := by
      rw [hinv.inPlace]
      exact Multiset.mem_coe.mpr (List.mem_map_of_mem hq)
    rw [places, waiting_eq_zero hinv hanswered, hcancelling, hdue] at hmem
    simpa [firsts] using hmem
  rcases Multiset.mem_add.mp hplace with hinvoked | hdropped
  · obtain ⟨d, hd, hid⟩ := List.mem_map.mp (Multiset.mem_coe.mp hinvoked)
    exact Or.inl ⟨d.2, by rwa [← hid]⟩
  · obtain ⟨d, hd, hid⟩ := List.mem_map.mp (Multiset.mem_coe.mp hdropped)
    obtain ⟨p, hp, q', hq', hpid, hid', hne, hkey⟩ := hinv.dropped d hd
    have hpq : p = q := hinv.eq_of_id_eq hp hq (hpid.trans hid)
    subst hpq
    refine Or.inr ⟨q', hq', hne.symm, hkey.symm, ?_⟩
    rw [hpid, hid']
    exact hd

/-- Two callers share one execution and the first cancels: the second is dropped. -/
theorem cancelled_caller_invoked :
    ∃ s : State ℕ ℕ, run [.associate 7 0, .execute 0, .assignToken 0, .associate 7 1,
        .cancel 0, .invoke 0, .complete 0 42] = some s ∧
      ∀ q ∈ s.requests, (∃ outcome, (q.id, outcome) ∈ s.invoked) ∨
        ∃ q' ∈ s.requests, q'.id ≠ q.id ∧ q'.key = q.key ∧ (q.id, q'.id) ∈ s.dropped := by
  have hrun : ((run [.associate 7 0, .execute 0, .assignToken 0, .associate 7 1, .cancel 0,
      .invoke 0, .complete 0 42]).map fun s : State ℕ ℕ =>
        (s.requests.map Request.owner, s.answered, s.cancelling, s.due)) =
        some ([0, 0], [0], [], []) := rfl
  obtain ⟨s, hs, hstate⟩ := Option.map_eq_some_iff.mp hrun
  simp only [Prod.mk.injEq] at hstate
  obtain ⟨howners, hanswered, hcancelling, hdue⟩ := hstate
  refine ⟨s, hs, invoked_or_dropped _ s hs (fun q hq => ?_) hcancelling hdue⟩
  have howner : q.owner ∈ s.requests.map Request.owner := List.mem_map_of_mem hq
  rw [howners] at howner
  rw [hanswered]
  simpa using howner

/-- In the run of that witness every execution has been answered and nothing is under way, and
the second caller has not been invoked. -/
theorem cancellation_silences_other_caller :
    ∃ s : State ℕ ℕ, run [.associate 7 0, .execute 0, .assignToken 0, .associate 7 1,
        .cancel 0, .invoke 0, .complete 0 42] = some s ∧
      s.requests = [⟨0, 7, 0⟩, ⟨1, 7, 0⟩] ∧ s.answered = [0] ∧ s.cancelling = [] ∧
      s.due = [] ∧ ∀ outcome, (1, outcome) ∉ s.invoked := by
  have hrun : ((run [.associate 7 0, .execute 0, .assignToken 0, .associate 7 1, .cancel 0,
      .invoke 0, .complete 0 42]).map fun s : State ℕ ℕ =>
        (s.requests, s.answered, s.cancelling, s.due, s.invoked)) =
      some ([⟨0, 7, 0⟩, ⟨1, 7, 0⟩], [0], [], [], [(0, .cancelled)]) := rfl
  obtain ⟨s, hs, hstate⟩ := Option.map_eq_some_iff.mp hrun
  simp only [Prod.mk.injEq] at hstate
  obtain ⟨hrequests, hanswered, hcancelling, hdue, hinvoked⟩ := hstate
  refine ⟨s, hs, hrequests, hanswered, hcancelling, hdue, fun outcome => ?_⟩
  rw [hinvoked]
  simp

/-! ## Whose response -/

/-- No late step finds another context under its key: a provider that calls its callback
finds its own context or none, and a token that is cancelled a context of its request or
none. -/
def Apart (s : State Key Response) : Event Key Response → Prop
  | .complete owner _ => ∀ q context, s.request owner = some q →
      s.activeReqs.find q.key = some context → context.owner = owner
  | .cancel id => ∀ q context, s.request id = some q →
      s.activeReqs.find q.key = some context → id ∈ context.callbacks
  | _ => True

/-- The cancellation of a request that waits in no context does nothing. -/
def Harmless (s : State Key Response) : Event Key Response → Prop
  | .cancel id => (∀ key context, s.activeReqs.find key = some context →
      id ∉ context.callbacks) → ∀ s', step s (.cancel id) = some s' → s' = s
  | _ => True

/-- The invocations that were made or are about to be. -/
def deliveries (s : State Key Response) : List (ℕ × Outcome Response) := s.due ++ s.invoked

/-- Every response that was or is about to be delivered comes from the execution the
request was associated with. -/
def FromOwnExecution (s : State Key Response) : Prop :=
  ∀ d ∈ deliveries s, ∀ owner response, d.2 = .completed owner response →
    ∃ q ∈ s.requests, q.id = d.1 ∧ q.owner = owner

section Provenance

variable {s s' : State Key Response} {event : Event Key Response}

theorem deliveries_subset (h : Moves s event s') : deliveries s ⊆ deliveries s' := by
  have happended : ∀ more : List (ℕ × Outcome Response),
      s.due ++ s.invoked ⊆ (s.due ++ more) ++ s.invoked := by
    intro more d hd
    rcases List.mem_append.mp hd with hd | hd
    · exact List.mem_append_left _ (List.mem_append_left _ hd)
    · exact List.mem_append_right _ hd
  cases h with
  | completed => exact happended _
  | cancelledShared => exact happended _
  | providerCancelled => exact happended _
  | invoked hfind =>
    intro d hd
    rcases List.mem_append.mp hd with hd | hd
    · rcases List.mem_cons.mp ((Assoc.perm_of_find? hfind).subset hd) with rfl | hd
      · exact List.mem_append_right _ (List.mem_append_right _ List.mem_cons_self)
      · exact List.mem_append_left _ hd
    · exact List.mem_append_right _ (List.mem_append_left _ hd)
  | _ => exact List.Subset.refl _

/-- A request that is being cancelled was, or its token is cancelled now. -/
theorem mem_cancelling_moves (h : Moves s event s') {id : ℕ}
    (hid : id ∈ s'.cancelling.map Prod.fst) :
    id ∈ s.cancelling.map Prod.fst ∨ event = .cancel id := by
  cases h with
  | cancelledLast =>
    rw [List.map_append, List.mem_append] at hid
    rcases hid with hid | hid
    · exact Or.inl hid
    · rw [List.mem_singleton.mp hid]
      exact Or.inr rfl
  | providerCancelled =>
    exact Or.inl (List.map_subset Prod.fst List.eraseP_subset hid)
  | _ => exact Or.inl hid

/-- Where a delivery comes from: it was there, or it is a cancellation of its own token that
was under way or begins, or this event completes an execution and takes the context of the
request out of the map. -/
theorem mem_deliveries_moves (h : Moves s event s') {d : ℕ × Outcome Response}
    (hd : d ∈ deliveries s') :
    d ∈ deliveries s ∨
      (d.2 = .cancelled ∧ (d.1 ∈ s.cancelling.map Prod.fst ∨ event = .cancel d.1)) ∨
      ∃ owner response q context, event = .complete owner response ∧
        s.request owner = some q ∧ s.activeReqs.find q.key = some context ∧
        d.1 ∈ context.callbacks ∧ d.2 = .completed owner response := by
  have happended : ∀ {more : List (ℕ × Outcome Response)},
      d ∈ (s.due ++ more) ++ s.invoked → d ∈ deliveries s ∨ d ∈ more := by
    intro more hd
    rw [List.append_assoc, List.mem_append, List.mem_append] at hd
    rcases hd with hd | hd | hd
    · exact Or.inl (List.mem_append_left _ hd)
    · exact Or.inr hd
    · exact Or.inl (List.mem_append_right _ hd)
  cases h with
  | completed hq hfind =>
    rcases happended hd with hd | hd
    · exact Or.inl hd
    · obtain ⟨id, hid, rfl⟩ := List.mem_map.mp hd
      exact Or.inr (Or.inr ⟨_, _, _, _, rfl, hq, hfind, hid, rfl⟩)
  | cancelledShared =>
    rcases happended hd with hd | hd
    · exact Or.inl hd
    · rw [List.mem_singleton.mp hd]
      exact Or.inr (Or.inl ⟨rfl, Or.inr rfl⟩)
  | providerCancelled hfind =>
    rename_i id c cancelled
    rcases happended hd with hd | hd
    · exact Or.inl hd
    · have hid : c.1 = id := by simpa using List.find?_some hfind
      rw [List.mem_singleton.mp hd]
      refine Or.inr (Or.inl ⟨rfl, Or.inl ?_⟩)
      exact List.mem_map.mpr ⟨c, List.mem_of_find?_eq_some hfind, hid⟩
  | invoked hfind =>
    left
    unfold deliveries at hd ⊢
    rw [List.mem_append, List.mem_append, List.mem_singleton] at hd
    rcases hd with hd | hd | rfl
    · exact List.mem_append_left _ (List.mem_of_mem_eraseP hd)
    · exact List.mem_append_right _ hd
    · exact List.mem_append_left _ (List.mem_of_find?_eq_some hfind)
  | _ => exact Or.inl hd

/-- An invocation with `cancelled_` was brought about by the cancellation of its own token. -/
theorem cancelled_of_run {events : List (Event Key Response)} (h : run events = some s)
    {id : ℕ} (hd : (id, .cancelled) ∈ deliveries s) : .cancel id ∈ events := by
  have hcaused := caused_runFrom
    (P := fun s => (id, .cancelled) ∈ deliveries s ∨ id ∈ s.cancelling.map Prod.fst)
    (C := fun event => event = .cancel id) (fun s event s' hstep hp => ?_) h (Or.inl hd)
  · rcases hcaused with (hnone | hnone) | ⟨event, hmem, rfl⟩
    · exact absurd hnone List.not_mem_nil
    · exact absurd hnone List.not_mem_nil
    · exact hmem
  · have hmoves := moves_of_step hstep
    rcases hp with hd | hid
    · rcases mem_deliveries_moves hmoves hd with hd | ⟨-, hid | hevent⟩ |
        ⟨_, _, _, _, -, -, -, -, hcompleted⟩
      · exact Or.inl (Or.inl hd)
      · exact Or.inl (Or.inr hid)
      · exact Or.inr hevent
      · cases hcompleted
    · rcases mem_cancelling_moves hmoves hid with hid | hevent
      · exact Or.inl (Or.inr hid)
      · exact Or.inr hevent

/-- **A callback is only invoked with the response of an execution of its own key.** -/
theorem same_key_of_run {events : List (Event Key Response)} (h : run events = some s)
    {id owner : ℕ} {response : Response} (hd : (id, .completed owner response) ∈ deliveries s) :
    ∃ q ∈ s.requests, ∃ q' ∈ s.requests, q.id = id ∧ q'.id = owner ∧ q.key = q'.key := by
  have hall := invariant_of_steps
    (fun s : State Key Response => Inv s ∧ ∀ id owner response,
      (id, .completed owner response) ∈ deliveries s →
        ∃ q ∈ s.requests, ∃ q' ∈ s.requests, q.id = id ∧ q'.id = owner ∧ q.key = q'.key)
    (fun s event s' hs hstep => ⟨inv_step hs.1 hstep, ?_⟩) h
    ⟨inv_init, fun _ _ _ hnone => absurd hnone List.not_mem_nil⟩
  · exact hall.2 id owner response hd
  · intro id owner response hd
    have hmoves := moves_of_step hstep
    rcases mem_deliveries_moves hmoves hd with hd | ⟨hcancelled, -⟩ |
      ⟨owner', response', q, context, -, hq, hfind, hid, hcompleted⟩
    · obtain ⟨q, hq, q', hq', hids⟩ := hs.2 id owner response hd
      exact ⟨q, requests_subset hmoves hq, q', requests_subset hmoves hq', hids⟩
    · cases hcancelled
    · cases hcompleted
      exact ⟨_, requests_subset hmoves (hs.1.home _ _ hfind id hid), q,
        requests_subset hmoves (mem_of_request hq), rfl, id_of_request hq, rfl⟩

/-- A step whose events stay apart delivers only responses of the own execution. -/
theorem fromOwnExecution_step (hinv : Inv s) (hown : FromOwnExecution s)
    (hapart : Apart s event) (h : step s event = some s') : FromOwnExecution s' := by
  have hmoves := moves_of_step h
  intro d hd owner response hresponse
  rcases mem_deliveries_moves hmoves hd with hd | ⟨hcancelled, -⟩ |
    ⟨owner', response', q, context, rfl, hq, hfind, hid, hcompleted⟩
  · obtain ⟨q, hq, hids⟩ := hown d hd owner response hresponse
    exact ⟨q, requests_subset hmoves hq, hids⟩
  · rw [hcancelled] at hresponse
    cases hresponse
  · rw [hcompleted] at hresponse
    obtain ⟨rfl, rfl⟩ := Outcome.completed.inj hresponse
    refine ⟨_, requests_subset hmoves (hinv.home _ _ hfind _ hid), rfl, ?_⟩
    exact hapart q context hq hfind

theorem harmless_of_apart (hapart : Apart s event) : Harmless s event := by
  cases event with
  | cancel id =>
    intro hnowhere s' hstep
    cases moves_of_step hstep with
    | cancelledLast hq hfind hmem => exact absurd hmem (hnowhere _ _ hfind)
    | cancelledShared hq hfind hmem => exact absurd hmem (hnowhere _ _ hfind)
    | cancelledForeign hq hfind hmem => exact absurd (hapart _ _ hq hfind) hmem
    | cancelledLate => rfl
  | _ => trivial

/-- An event that does no harm, and whose deliveries come from the own execution, stays
apart. -/
theorem apart_of_harmless (hinv : Inv s) (hharmless : Harmless s event)
    (h : step s event = some s') (hinv' : Inv s') (hown : FromOwnExecution s') :
    Apart s event := by
  have hmoves := moves_of_step h
  cases event with
  | complete owner response =>
    intro q context hq hfind
    cases hmoves with
    | completed hq' hfind' =>
      obtain rfl := Option.some.inj (hq.symm.trans hq')
      obtain rfl := Option.some.inj (hfind.symm.trans hfind')
      -- some callback waits in the context, and is about to get this response
      obtain ⟨id, hid⟩ := List.exists_mem_of_ne_nil _ (hinv.nonempty _ _ hfind)
      have hd : (id, .completed owner response) ∈
          s.due ++ context.callbacks.map fun id => (id, .completed owner response) :=
        List.mem_append_right _ (List.mem_map_of_mem hid)
      obtain ⟨p, hp, hpid, howner⟩ := hown _ (List.mem_append_left _ hd) owner response rfl
      have heq := hinv'.eq_of_id_eq hp (hinv.home _ _ hfind id hid) hpid
      rw [← howner, heq]
    | completedLate hq' hnone =>
      obtain rfl := Option.some.inj (hq.symm.trans hq')
      rw [hnone] at hfind
      cases hfind
  | cancel id =>
    intro q context hq hfind
    by_contra hmem
    -- the request waits nowhere, so the event changes nothing; but it erases the context
    have hnowhere : ∀ key context, s.activeReqs.find key = some context →
        id ∉ context.callbacks := by
      intro key context' hfind' hmem'
      have heq := hinv.eq_of_id_eq (hinv.home key context' hfind' id hmem') (mem_of_request hq)
        (id_of_request hq).symm
      rw [show key = q.key from congrArg Request.key heq, hfind] at hfind'
      exact hmem (Option.some.inj hfind' ▸ hmem')
    have hsame := hharmless hnowhere s' h
    cases hmoves with
    | cancelledLast hq' hfind' hmem' => exact hnowhere _ _ hfind' hmem'
    | cancelledShared hq' hfind' hmem' => exact hnowhere _ _ hfind' hmem'
    | cancelledForeign hq' hfind' =>
      obtain rfl := Option.some.inj (hq.symm.trans hq')
      have hactive := congrArg (fun s => SortedMap.find (State.activeReqs s) q.key) hsame
      simp [SortedMap.find_erase, hfind] at hactive
    | cancelledLate hq' hnone =>
      obtain rfl := Option.some.inj (hq.symm.trans hq')
      rw [hnone] at hfind
      cases hfind
  | _ => trivial

theorem mem_ids_of_mem_deliveries (hinv : Inv s) {d : ℕ × Outcome Response}
    (hd : d ∈ deliveries s) : d.1 ∈ s.requests.map Request.id := by
  have hmem : d.1 ∈ firsts s.due + firsts s.invoked := by
    rw [← firsts_append]
    exact Multiset.mem_coe.mpr (List.mem_map_of_mem hd)
  have hle : firsts s.due + firsts s.invoked ≤ ids s.requests := by
    rw [← hinv.inPlace, places, add_assoc _ (firsts s.due)]
    exact (Multiset.le_add_left _ _).trans (Multiset.le_add_right _ _)
  exact Multiset.mem_coe.mp (Multiset.mem_of_le hle hmem)

/-- Deliveries that come from the own execution at the end of a run did so before. -/
theorem fromOwnExecution_of_run {events : List (Event Key Response)}
    (hrun : runFrom step s events = some s') (hinv : Inv s) (hinv' : Inv s')
    (hown : FromOwnExecution s') : FromOwnExecution s := by
  intro d hd owner response hresponse
  have hd' : d ∈ deliveries s' := invariant_of_steps (fun s => d ∈ deliveries s)
    (fun _ _ _ hmem hstep => deliveries_subset (moves_of_step hstep) hmem) hrun hd
  obtain ⟨q, hq, hid, howner⟩ := hown d hd' owner response hresponse
  obtain ⟨p, hp, hpid⟩ := List.mem_map.mp (mem_ids_of_mem_deliveries hinv hd)
  have heq := hinv'.eq_of_id_eq (mem_requests_of_run hrun hp) hq (hpid.trans hid.symm)
  exact ⟨p, hp, hpid, by rw [heq]; exact howner⟩

/-- The events of a run stay apart if they do no harm and the deliveries at its end come from
the own execution. -/
theorem along_apart_of_harmless {events : List (Event Key Response)}
    (hrun : runFrom step s events = some s') (hinv : Inv s) (hown : FromOwnExecution s')
    (hharmless : Along step Harmless s events) : Along step Apart s events := by
  have hinv' : Inv s' := invariant_of_steps Inv (fun _ _ _ => inv_step) hrun hinv
  induction events generalizing s with
  | nil => trivial
  | cons event events ih =>
    obtain ⟨m, hm, hrest⟩ := runFrom_cons.mp hrun
    have hinvm : Inv m := inv_step hinv hm
    have hownm := fromOwnExecution_of_run hrest hinvm hinv' hown
    refine ⟨apart_of_harmless hinv hharmless.1 hm hinvm hownm, fun n hn => ?_⟩
    obtain rfl := Option.some.inj (hm.symm.trans hn)
    exact ih hrest hinvm (hharmless.2 m hm)

end Provenance

/-- **A callback is invoked with `cancelled_` only by its own token; and it is invoked with no
response but that of its own execution, and a token of a finished request does nothing, iff in
the run no late step finds another context under its key.**
SOURCE: MultiRequestContext.h:103-125, 138-208 -/
theorem own_response_iff (events : List (Event Key Response)) (s : State Key Response)
    (h : run events = some s) :
    (∀ id, (id, .cancelled) ∈ deliveries s → .cancel id ∈ events) ∧
      ((FromOwnExecution s ∧ Along step Harmless init events) ↔
        Along step Apart init events) := by
  refine ⟨fun id hd => cancelled_of_run h hd, ?_, ?_⟩
  · rintro ⟨hown, hharmless⟩
    exact along_apart_of_harmless h inv_init hown hharmless
  · intro hapart
    refine ⟨?_, ?_⟩
    · have hboth := invariant_along (fun s => Inv s ∧ FromOwnExecution s)
        (fun s event s' hinv hapart hstep => ⟨inv_step hinv.1 hstep,
          fromOwnExecution_step hinv.1 hinv.2 hapart hstep⟩) h hapart
        ⟨inv_init, fun d hd => absurd hd List.not_mem_nil⟩
      exact hboth.2
    · exact along_imp (fun _ => True) (fun _ _ _ _ _ => trivial)
        (fun _ _ _ hapart => harmless_of_apart hapart) trivial hapart

/-- A run in which the provider answers while its own context is active. -/
theorem own_response_of_one_execution :
    ∃ s : State ℕ ℕ, run [.associate 7 0, .execute 0, .complete 0 42, .invoke 0] = some s ∧
      s.invoked = [(0, .completed 0 42)] ∧ FromOwnExecution s := by
  have hrun : ((run [.associate 7 0, .execute 0, .complete 0 42, .invoke 0]).map
      fun s : State ℕ ℕ => s.invoked) = some [(0, .completed 0 42)] := rfl
  obtain ⟨s, hs, hinvoked⟩ := Option.map_eq_some_iff.mp hrun
  refine ⟨s, hs, hinvoked, ((own_response_iff _ s hs).2.mpr ?_).1⟩
  refine ⟨trivial, fun s₁ h₁ => ⟨trivial, fun s₂ h₂ => ⟨?_, fun s₃ _ =>
    ⟨trivial, fun s₄ _ => trivial⟩⟩⟩⟩
  intro q context hq hfind
  obtain rfl := Option.some.inj h₁
  obtain rfl := Option.some.inj h₂
  obtain rfl := Option.some.inj hq
  obtain rfl := Option.some.inj hfind
  rfl

/-- A request is cancelled, another one of its key is made, and then the provider of the first
answers: the second gets the response of the first. -/
theorem late_answer_reaches_next_request :
    ∃ s : State ℕ ℕ, run [.associate 7 0, .execute 0, .assignToken 0, .cancel 0,
        .cancelProvider 0, .invoke 0, .associate 7 1, .execute 1, .complete 0 42, .invoke 1] =
          some s ∧
      s.requests = [⟨0, 7, 0⟩, ⟨1, 7, 1⟩] ∧ (1, .completed 0 42) ∈ s.invoked := by
  have hrun : ((run [.associate 7 0, .execute 0, .assignToken 0, .cancel 0,
      .cancelProvider 0, .invoke 0, .associate 7 1, .execute 1, .complete 0 42, .invoke 1]).map
      fun s : State ℕ ℕ => (s.requests, s.invoked)) =
      some ([⟨0, 7, 0⟩, ⟨1, 7, 1⟩], [(0, .cancelled), (1, .completed 0 42)]) := rfl
  obtain ⟨s, hs, hstate⟩ := Option.map_eq_some_iff.mp hrun
  simp only [Prod.mk.injEq] at hstate
  refine ⟨s, hs, hstate.1, ?_⟩
  rw [hstate.2]
  simp

end OlpEdgeSdk.Analysis.MultiRequestContext

import Mathlib.Algebra.Order.Group.Multiset
import Mathlib.Data.Multiset.MapFold
import Mathlib.Tactic.Abel
import OlpEdgeSdk.Model.MultiRequestContext

/-!
# Runs of coalesced requests

`Moves` lists what each event can do. From it come the invariants of every run (`Inv`): a
request is at every moment in exactly one place (waiting in one active context, being
cancelled, about to be invoked, invoked, or dropped), an active context holds at least one
callback, all of its own execution, and its provider has not answered yet.

Two results follow at once: no callback is invoked twice (`invoked_at_most_once`), and when
all executions have been answered every callback was invoked or dropped by the cancellation
of another request of its key (`invoked_or_dropped`).
-/

set_option autoImplicit false

namespace OlpEdgeSdk.Analysis.MultiRequestContext

open OlpEdgeSdk.Base OlpEdgeSdk.Model.MultiRequestContext
open OlpEdgeSdk.Model.MultiRequestContext.State

variable {Key Response : Type} [LinearOrder Key]

/-! ## What an event can do -/

/-- What an event can do to a state. -/
inductive Moves (s : State Key Response) : Event Key Response → State Key Response → Prop where
  | joined {key : Key} {id : ℕ} {context : RequestContext} (hnew : s.request id = none)
      (hfind : s.activeReqs.find key = some context) :
      Moves s (.associate key id) { s with
        activeReqs := s.activeReqs.insert key
          { context with callbacks := context.callbacks ++ [id] }
        requests := s.requests ++ [⟨id, key, context.owner⟩] }
  | opened {key : Key} {id : ℕ} (hnew : s.request id = none)
      (hfind : s.activeReqs.find key = none) :
      Moves s (.associate key id) { s with
        activeReqs := s.activeReqs.insert key ⟨id, [id]⟩
        requests := s.requests ++ [⟨id, key, id⟩] }
  | executed {owner : ℕ} {q : Request Key} (hq : s.request owner = some q)
      (howner : q.owner = owner) :
      Moves s (.execute owner) { s with started := s.started ++ [owner] }
  | assigned {owner : ℕ} :
      Moves s (.assignToken owner) { s with returned := s.returned ++ [owner] }
  | completed {owner : ℕ} {response : Response} {q : Request Key} {context : RequestContext}
      (hq : s.request owner = some q) (hfind : s.activeReqs.find q.key = some context) :
      Moves s (.complete owner response) { s with
        answered := s.answered ++ [owner]
        activeReqs := s.activeReqs.erase q.key
        due := s.due ++ context.callbacks.map fun id => (id, .completed owner response) }
  | completedLate {owner : ℕ} {response : Response} {q : Request Key}
      (hq : s.request owner = some q) (hfind : s.activeReqs.find q.key = none) :
      Moves s (.complete owner response) { s with answered := s.answered ++ [owner] }
  | cancelledLast {id : ℕ} {q : Request Key} {context : RequestContext}
      (hq : s.request id = some q) (hfind : s.activeReqs.find q.key = some context)
      (hmem : id ∈ context.callbacks) (hlast : context.callbacks.length ≤ 1) :
      Moves s (.cancel id) { s with
        activeReqs := s.activeReqs.erase q.key
        dropped := s.dropped ++ (context.callbacks.erase id).map fun other => (other, id)
        cancelling := s.cancelling ++ [(id, context.owner)] }
  | cancelledShared {id : ℕ} {q : Request Key} {context : RequestContext}
      (hq : s.request id = some q) (hfind : s.activeReqs.find q.key = some context)
      (hmem : id ∈ context.callbacks) :
      Moves s (.cancel id) { s with
        activeReqs := s.activeReqs.erase q.key
        dropped := s.dropped ++ (context.callbacks.erase id).map fun other => (other, id)
        due := s.due ++ [(id, .cancelled)] }
  | cancelledForeign {id : ℕ} {q : Request Key} {context : RequestContext}
      (hq : s.request id = some q) (hfind : s.activeReqs.find q.key = some context)
      (hmem : id ∉ context.callbacks) :
      Moves s (.cancel id) { s with
        activeReqs := s.activeReqs.erase q.key
        dropped := s.dropped ++ (context.callbacks.erase id).map fun other => (other, id) }
  | cancelledLate {id : ℕ} {q : Request Key} (hq : s.request id = some q)
      (hfind : s.activeReqs.find q.key = none) : Moves s (.cancel id) s
  | providerCancelled {id : ℕ} {c : ℕ × ℕ}
      (hfind : (s.cancelling.find? fun c => c.1 = id) = some c) (cancelled : List ℕ) :
      Moves s (.cancelProvider id) { s with
        cancelling := s.cancelling.eraseP fun c => c.1 = id
        providersCancelled := cancelled
        due := s.due ++ [(id, .cancelled)] }
  | invoked {id : ℕ} {d : ℕ × Outcome Response}
      (hfind : (s.due.find? fun d => d.1 = id) = some d) :
      Moves s (.invoke id) { s with
        due := s.due.eraseP fun d => d.1 = id
        invoked := s.invoked ++ [d] }

/-- **Step.** Every event that can happen is one of the moves. -/
theorem moves_of_step {s s' : State Key Response} {event : Event Key Response}
    (h : step s event = some s') : Moves s event s' := by
  cases event with
  | associate key id =>
    unfold step at h
    dsimp only at h
    split at h
    · cases h
    · rename_i hnew
      obtain rfl := Option.some.inj h
      unfold State.associate
      split
      · rename_i context hfind
        exact .joined hnew hfind
      · rename_i hfind
        exact .opened hnew hfind
  | execute owner =>
    unfold step at h
    dsimp only at h
    split at h
    · rename_i q hq
      split at h
      · rename_i hcond
        obtain rfl := Option.some.inj h
        exact .executed hq hcond.1
      · cases h
    · cases h
  | assignToken owner =>
    unfold step at h
    dsimp only at h
    split at h
    · obtain rfl := Option.some.inj h
      exact .assigned
    · cases h
  | complete owner response =>
    unfold step at h
    dsimp only at h
    split at h
    · rename_i q hq
      split at h
      · obtain rfl := Option.some.inj h
        unfold onRequestCompleted
        dsimp only
        split
        · rename_i context hfind
          exact .completed hq hfind
        · rename_i hfind
          exact .completedLate hq hfind
      · cases h
    · cases h
  | cancel id =>
    unfold step at h
    dsimp only at h
    split at h
    · rename_i q hq
      split at h
      · obtain rfl := Option.some.inj h
        unfold onRequestCancelled
        dsimp only
        split
        · rename_i context hfind
          split
          · rename_i hmem
            split
            · rename_i hlast
              exact .cancelledLast hq hfind hmem hlast
            · exact .cancelledShared hq hfind hmem
          · rename_i hmem
            exact .cancelledForeign hq hfind hmem
        · rename_i hfind
          exact .cancelledLate hq hfind
      · cases h
    · cases h
  | cancelProvider id =>
    unfold step at h
    dsimp only at h
    split at h
    · rename_i c hfind
      obtain rfl := Option.some.inj h
      exact .providerCancelled hfind _
    · cases h
  | invoke id =>
    unfold step at h
    dsimp only at h
    split at h
    · rename_i d hfind
      obtain rfl := Option.some.inj h
      exact .invoked hfind
    · cases h

section Lookup

variable {s s' : State Key Response} {id : ℕ} {q : Request Key}

theorem mem_of_request (h : s.request id = some q) : q ∈ s.requests :=
  List.mem_of_find?_eq_some h

theorem id_of_request (h : s.request id = some q) : q.id = id := by
  simpa using List.find?_some h

theorem notMem_of_request_none (h : s.request id = none) :
    id ∉ s.requests.map Request.id := by
  intro hmem
  obtain ⟨q, hq, hid⟩ := List.mem_map.mp hmem
  exact absurd (decide_eq_true hid) (List.find?_eq_none.mp h q hq)

/-- Requests are never forgotten. -/
theorem requests_subset {event : Event Key Response} (h : Moves s event s') :
    s.requests ⊆ s'.requests := by
  cases h with
  | joined | opened => exact List.subset_append_left _ _
  | _ => exact List.Subset.refl _

end Lookup

/-! ## Every request is in one place -/

/-- The requests of a list of pairs. -/
def firsts {α : Type} (l : List (ℕ × α)) : Multiset ℕ := (l.map Prod.fst : List ℕ)

section Firsts

variable {α : Type}

theorem firsts_append (l l' : List (ℕ × α)) : firsts (l ++ l') = firsts l + firsts l' := by
  simp [firsts]

theorem firsts_singleton (p : ℕ × α) : firsts [p] = {p.1} := rfl

theorem firsts_map_pair (ids : List ℕ) (a : α) : firsts (ids.map fun id => (id, a)) = ids := by
  simp [firsts, Function.comp_def]

/-- The first pair that satisfies a predicate and the list without it. -/
theorem firsts_of_find? {l : List (ℕ × α)} {p : ℕ × α → Bool} {a : ℕ × α}
    (h : l.find? p = some a) : firsts l = {a.1} + firsts (l.eraseP p) :=
  Multiset.coe_eq_coe.mpr ((Assoc.perm_of_find? h).map Prod.fst)

end Firsts

/-- The ids drawn so far. -/
def ids {Key : Type} (requests : List (Request Key)) : Multiset ℕ :=
  (requests.map Request.id : List ℕ)

theorem ids_append_singleton {Key : Type} (requests : List (Request Key)) (q : Request Key) :
    ids (requests ++ [q]) = {q.id} + ids requests := by
  have hadd : ids (requests ++ [q]) = ids requests + {q.id} := by
    simp [ids, ← Multiset.coe_add]
  rw [hadd, add_comm]

/-- The requests that wait in some context. -/
def waiting (reqs : SortedMap Key RequestContext) : Multiset ℕ :=
  (reqs.entries.flatMap fun e => e.2.callbacks : List ℕ)

/-- A context and the rest of the map. -/
theorem waiting_of_find {reqs : SortedMap Key RequestContext} {key : Key}
    {context : RequestContext} (h : reqs.find key = some context) :
    waiting reqs = (context.callbacks : Multiset ℕ) + waiting (reqs.erase key) := by
  have hperm := (SortedMap.entries_perm_of_find h).flatMap_right fun e => e.2.callbacks
  unfold waiting
  rw [Multiset.coe_eq_coe.mpr hperm, List.flatMap_cons, Multiset.coe_add]

theorem waiting_insert (reqs : SortedMap Key RequestContext) (key : Key)
    (context : RequestContext) :
    waiting (reqs.insert key context) =
      (context.callbacks : Multiset ℕ) + waiting (reqs.erase key) := by
  have hperm := (SortedMap.entries_insert_perm reqs key context).flatMap_right
    fun e => e.2.callbacks
  unfold waiting
  rw [Multiset.coe_eq_coe.mpr hperm, List.flatMap_cons, Multiset.coe_add]

/-- The callbacks of a context: one of them and the others. -/
theorem coe_callbacks_erase {callbacks : List ℕ} {id : ℕ} (h : id ∈ callbacks) :
    (callbacks : Multiset ℕ) = {id} + (callbacks.erase id : List ℕ) :=
  Multiset.coe_eq_coe.mpr (List.perm_cons_erase h)

/-- The places in which a request can be. -/
def places (s : State Key Response) : Multiset ℕ :=
  waiting s.activeReqs + firsts s.cancelling + firsts s.due + firsts s.invoked +
    firsts s.dropped

/-- **No event loses or duplicates a request**: it adds the request it registers, if any, and
otherwise moves requests between places. -/
theorem places_moves {s s' : State Key Response} {event : Event Key Response}
    (h : Moves s event s') (hplaces : places s = ids s.requests) :
    places s' = ids s'.requests := by
  cases h with
  | joined hnew hfind =>
    rename_i key id context
    have hcallbacks : ((context.callbacks ++ [id] : List ℕ) : Multiset ℕ) =
        {id} + context.callbacks := by
      rw [← Multiset.coe_add, add_comm]
      rfl
    rw [ids_append_singleton, ← hplaces]
    simp only [places, waiting_insert, waiting_of_find hfind, hcallbacks]
    abel
  | opened hnew hfind =>
    rename_i key id
    have hcallbacks : (([id] : List ℕ) : Multiset ℕ) = {id} := rfl
    rw [ids_append_singleton, ← hplaces]
    simp only [places, waiting_insert, SortedMap.erase_of_find_none hfind, hcallbacks]
    abel
  | executed => exact hplaces
  | assigned => exact hplaces
  | completed hq hfind =>
    rw [← hplaces]
    simp only [places, waiting_of_find hfind, firsts_append, firsts_map_pair]
    abel
  | completedLate => exact hplaces
  | cancelledLast hq hfind hmem =>
    rw [← hplaces]
    simp only [places, waiting_of_find hfind, firsts_append, firsts_map_pair,
      firsts_singleton, coe_callbacks_erase hmem]
    abel
  | cancelledShared hq hfind hmem =>
    rw [← hplaces]
    simp only [places, waiting_of_find hfind, firsts_append, firsts_map_pair,
      firsts_singleton, coe_callbacks_erase hmem]
    abel
  | cancelledForeign hq hfind hmem =>
    rw [← hplaces]
    simp only [places, waiting_of_find hfind, firsts_append, firsts_map_pair,
      List.erase_of_not_mem hmem]
    abel
  | cancelledLate => exact hplaces
  | providerCancelled hfind =>
    rename_i id c cancelled
    have hid : c.1 = id := by simpa using List.find?_some hfind
    rw [← hplaces]
    simp only [places, firsts_of_find? hfind, hid, firsts_append, firsts_singleton]
    abel
  | invoked hfind =>
    rw [← hplaces]
    simp only [places, firsts_of_find? hfind, firsts_append, firsts_singleton]
    abel

/-! ## The invariant -/

/-- What holds in every state of every run. -/
structure Inv (s : State Key Response) : Prop where
  /-- No id is drawn twice. -/
  nodup : (s.requests.map Request.id).Nodup
  /-- Every request is in exactly one place. -/
  inPlace : places s = ids s.requests
  /-- The first callback of an active context is that of the request that made it. -/
  first : ∀ key context, s.activeReqs.find key = some context →
    context.callbacks.head? = some context.owner
  /-- The callbacks of an active context were associated with its execution. -/
  home : ∀ key context, s.activeReqs.find key = some context →
    ∀ id ∈ context.callbacks, ⟨id, key, context.owner⟩ ∈ s.requests
  /-- The execution of an active context was started for its key. -/
  owner : ∀ key context, s.activeReqs.find key = some context →
    ⟨context.owner, key, context.owner⟩ ∈ s.requests
  /-- The provider of an active context has not answered. -/
  unanswered : ∀ key context, s.activeReqs.find key = some context →
    context.owner ∉ s.answered
  /-- Only executions that were started are answered. -/
  answered : ∀ owner ∈ s.answered, owner ∈ s.requests.map Request.id
  /-- A request is dropped by the cancellation of another request of its key. -/
  dropped : ∀ d ∈ s.dropped, ∃ q ∈ s.requests, ∃ q' ∈ s.requests,
    q.id = d.1 ∧ q'.id = d.2 ∧ q.id ≠ q'.id ∧ q.key = q'.key
  /-- Only the request that made a context cancels its provider. -/
  cancelling : ∀ c ∈ s.cancelling, c.1 = c.2

theorem inv_init : Inv (init : State Key Response) where
  nodup := List.nodup_nil
  inPlace := rfl
  first _ _ h := nomatch h
  home _ _ h := nomatch h
  owner _ _ h := nomatch h
  unanswered _ _ h := nomatch h
  answered _ h := nomatch h
  dropped _ h := nomatch h
  cancelling _ h := nomatch h

section Preservation

variable {s s' : State Key Response} {event : Event Key Response}

/-- An active context has a callback. -/
theorem Inv.nonempty (hinv : Inv s) (key : Key) (context : RequestContext)
    (hfind : s.activeReqs.find key = some context) : context.callbacks ≠ [] := by
  intro hnil
  have hfirst := hinv.first key context hfind
  rw [hnil] at hfirst
  cases hfirst

/-- Two requests with one id are one request. -/
theorem Inv.eq_of_id_eq (hinv : Inv s) {q q' : Request Key} (hq : q ∈ s.requests)
    (hq' : q' ∈ s.requests) (h : q.id = q'.id) : q = q' :=
  List.inj_on_of_nodup_map hinv.nodup hq hq' h

theorem nodup_moves (hinv : Inv s) (h : Moves s event s') :
    (s'.requests.map Request.id).Nodup := by
  have hfresh : ∀ q : Request Key, s.request q.id = none →
      ((s.requests ++ [q]).map Request.id).Nodup := by
    intro q hnew
    rw [List.map_append]
    refine List.Nodup.append hinv.nodup (List.nodup_singleton _) ?_
    simpa using notMem_of_request_none hnew
  cases h with
  | joined hnew hfind => exact hfresh _ hnew
  | opened hnew hfind => exact hfresh _ hnew
  | _ => exact hinv.nodup

/-- Where an active context comes from: it was there, it was there with one callback less, or
it is new. -/
theorem find_moves (h : Moves s event s') {key : Key} {context : RequestContext}
    (hfind : s'.activeReqs.find key = some context) :
    s.activeReqs.find key = some context ∨
      (∃ id old, s.activeReqs.find key = some old ∧ context.owner = old.owner ∧
        context.callbacks = old.callbacks ++ [id] ∧
        s'.requests = s.requests ++ [⟨id, key, old.owner⟩] ∧ s'.answered = s.answered) ∨
      ∃ id, s.request id = none ∧ context = ⟨id, [id]⟩ ∧
        s'.requests = s.requests ++ [⟨id, key, id⟩] ∧ s'.answered = s.answered := by
  have herased : ∀ other : Key, (s.activeReqs.erase other).find key = some context →
      s.activeReqs.find key = some context := by
    intro other h
    rw [SortedMap.find_erase] at h
    split at h
    · cases h
    · exact h
  cases h with
  | joined hnew hold =>
    rename_i other id old
    rw [SortedMap.find_insert] at hfind
    split at hfind
    · rename_i heq
      obtain rfl := Option.some.inj hfind
      subst heq
      exact Or.inr (Or.inl ⟨id, old, hold, rfl, rfl, rfl, rfl⟩)
    · exact Or.inl hfind
  | opened hnew hold =>
    rename_i other id
    rw [SortedMap.find_insert] at hfind
    split at hfind
    · rename_i heq
      obtain rfl := Option.some.inj hfind
      subst heq
      exact Or.inr (Or.inr ⟨id, hnew, rfl, rfl, rfl⟩)
    · exact Or.inl hfind
  | completed => exact Or.inl (herased _ hfind)
  | cancelledLast => exact Or.inl (herased _ hfind)
  | cancelledShared => exact Or.inl (herased _ hfind)
  | cancelledForeign => exact Or.inl (herased _ hfind)
  | _ => exact Or.inl hfind

theorem first_moves (hinv : Inv s) (h : Moves s event s') (key : Key)
    (context : RequestContext) (hfind : s'.activeReqs.find key = some context) :
    context.callbacks.head? = some context.owner := by
  rcases find_moves h hfind with hold | ⟨id, old, hold, howner, hcallbacks, -⟩ | ⟨id, -, rfl, -⟩
  · exact hinv.first key context hold
  · rw [hcallbacks, howner, List.head?_append, hinv.first key old hold]
    rfl
  · rfl

theorem cancelling_moves (hinv : Inv s) (h : Moves s event s') (c : ℕ × ℕ)
    (hc : c ∈ s'.cancelling) : c.1 = c.2 := by
  cases h with
  | cancelledLast hq hfind hmem hlast =>
    rcases List.mem_append.mp hc with hc | hc
    · exact hinv.cancelling c hc
    · -- the only callback is the first one
      have hfirst := hinv.first _ _ hfind
      obtain ⟨only, honly⟩ := List.length_eq_one_iff.mp
        (le_antisymm hlast (List.length_pos_of_mem hmem))
      rw [honly] at hmem hfirst
      rw [List.mem_singleton.mp hc, List.mem_singleton.mp hmem]
      exact Option.some.inj hfirst
  | providerCancelled => exact hinv.cancelling c (List.mem_of_mem_eraseP hc)
  | _ => exact hinv.cancelling c hc

theorem home_moves (hinv : Inv s) (h : Moves s event s') (key : Key)
    (context : RequestContext) (hfind : s'.activeReqs.find key = some context) (id : ℕ)
    (hid : id ∈ context.callbacks) : ⟨id, key, context.owner⟩ ∈ s'.requests := by
  rcases find_moves h hfind with hold | ⟨new, old, hold, howner, hcallbacks, hreqs, -⟩ |
    ⟨new, -, rfl, hreqs, -⟩
  · exact requests_subset h (hinv.home key context hold id hid)
  · rw [hcallbacks, List.mem_append, List.mem_singleton] at hid
    rw [hreqs, howner]
    rcases hid with hid | rfl
    · exact List.mem_append_left _ (hinv.home key old hold id hid)
    · exact List.mem_append_right _ List.mem_cons_self
  · obtain rfl := List.mem_singleton.mp hid
    rw [hreqs]
    exact List.mem_append_right _ List.mem_cons_self

theorem owner_moves (hinv : Inv s) (h : Moves s event s') (key : Key)
    (context : RequestContext) (hfind : s'.activeReqs.find key = some context) :
    ⟨context.owner, key, context.owner⟩ ∈ s'.requests := by
  rcases find_moves h hfind with hold | ⟨new, old, hold, howner, -, -⟩ | ⟨new, -, rfl, hreqs, -⟩
  · exact requests_subset h (hinv.owner key context hold)
  · rw [howner]
    exact requests_subset h (hinv.owner key old hold)
  · rw [hreqs]
    exact List.mem_append_right _ List.mem_cons_self

/-- An execution that answers takes its own context out of the map, if it is there. -/
theorem owner_ne_of_erased (hinv : Inv s) {owner : ℕ} {q : Request Key}
    (hq : s.request owner = some q) {key : Key} {context : RequestContext}
    (hfind : (s.activeReqs.erase q.key).find key = some context) : context.owner ≠ owner := by
  rw [SortedMap.find_erase] at hfind
  split at hfind
  · cases hfind
  · rename_i hne
    rintro rfl
    have heq := hinv.eq_of_id_eq (hinv.owner key context hfind) (mem_of_request hq)
      (id_of_request hq).symm
    exact hne (congrArg Request.key heq)

theorem unanswered_moves (hinv : Inv s) (h : Moves s event s') (key : Key)
    (context : RequestContext) (hfind : s'.activeReqs.find key = some context) :
    context.owner ∉ s'.answered := by
  have hother : s'.answered = s.answered → context.owner ∉ s'.answered := by
    intro hsame
    rw [hsame]
    rcases find_moves h hfind with hold | ⟨new, old, hold, howner, -⟩ | ⟨new, hnew, rfl, -⟩
    · exact hinv.unanswered key context hold
    · rw [howner]
      exact hinv.unanswered key old hold
    · exact fun hmem => notMem_of_request_none hnew (hinv.answered new hmem)
  have hanswer : ∀ {owner : ℕ} {q : Request Key}, s.request owner = some q →
      (s.activeReqs.erase q.key).find key = some context →
      context.owner ∉ s.answered ++ [owner] := by
    intro owner q hq herased
    have hne := owner_ne_of_erased hinv hq herased
    rw [SortedMap.find_erase] at herased
    split at herased
    · cases herased
    · simpa [hne] using hinv.unanswered key context herased
  cases h with
  | completed hq hold => exact hanswer hq hfind
  | completedLate hq hold =>
    exact hanswer hq (by rwa [SortedMap.erase_of_find_none hold])
  | _ => exact hother rfl

theorem answered_moves (hinv : Inv s) (h : Moves s event s') (owner : ℕ)
    (hmem : owner ∈ s'.answered) : owner ∈ s'.requests.map Request.id := by
  have hsubset := List.map_subset Request.id (requests_subset h)
  have hanswer : ∀ {other : ℕ} {q : Request Key}, s.request other = some q →
      owner ∈ s.answered ++ [other] → owner ∈ s.requests.map Request.id := by
    intro other q hq hmem
    rw [List.mem_append, List.mem_singleton] at hmem
    rcases hmem with hmem | rfl
    · exact hinv.answered owner hmem
    · exact List.mem_map.mpr ⟨q, mem_of_request hq, id_of_request hq⟩
  cases h with
  | completed hq => exact hanswer hq hmem
  | completedLate hq => exact hanswer hq hmem
  | _ => exact hsubset (hinv.answered owner hmem)

/-- The requests that the cancellation of another one drops are of its key. -/
theorem dropped_of_cancel (hinv : Inv s) {id : ℕ} {q : Request Key} {context : RequestContext}
    (hq : s.request id = some q) (hfind : s.activeReqs.find q.key = some context)
    {d : ℕ × ℕ} (hd : d ∈ (context.callbacks.erase id).map fun other => (other, id)) :
    ∃ p ∈ s.requests, ∃ p' ∈ s.requests,
      p.id = d.1 ∧ p'.id = d.2 ∧ p.id ≠ p'.id ∧ p.key = p'.key := by
  obtain ⟨other, hother, rfl⟩ := List.mem_map.mp hd
  have hnodup : context.callbacks.Nodup := by
    have hle : (context.callbacks : Multiset ℕ) ≤ ids s.requests := by
      rw [← hinv.inPlace, places, waiting_of_find hfind]
      simp only [add_assoc]
      exact Multiset.le_add_right _ _
    exact Multiset.coe_nodup.mp (Multiset.nodup_of_le hle (Multiset.coe_nodup.mpr hinv.nodup))
  have hmem : other ∈ context.callbacks := List.mem_of_mem_erase hother
  have hne : other ≠ id := ((List.Nodup.mem_erase_iff hnodup).mp hother).1
  refine ⟨_, hinv.home _ _ hfind other hmem, q, mem_of_request hq, rfl, id_of_request hq, ?_, rfl⟩
  rw [id_of_request hq]
  exact hne

theorem dropped_moves (hinv : Inv s) (h : Moves s event s') (d : ℕ × ℕ)
    (hd : d ∈ s'.dropped) : ∃ q ∈ s'.requests, ∃ q' ∈ s'.requests,
      q.id = d.1 ∧ q'.id = d.2 ∧ q.id ≠ q'.id ∧ q.key = q'.key := by
  have hkept : d ∈ s.dropped → ∃ q ∈ s'.requests, ∃ q' ∈ s'.requests,
      q.id = d.1 ∧ q'.id = d.2 ∧ q.id ≠ q'.id ∧ q.key = q'.key := by
    intro hd
    obtain ⟨q, hq, q', hq', hids⟩ := hinv.dropped d hd
    exact ⟨q, requests_subset h hq, q', requests_subset h hq', hids⟩
  have hcancelled : ∀ {id : ℕ} {q : Request Key} {context : RequestContext},
      s.request id = some q → s.activeReqs.find q.key = some context →
      d ∈ s.dropped ++ (context.callbacks.erase id).map (fun other => (other, id)) →
      s'.requests = s.requests →
      ∃ q ∈ s'.requests, ∃ q' ∈ s'.requests,
        q.id = d.1 ∧ q'.id = d.2 ∧ q.id ≠ q'.id ∧ q.key = q'.key := by
    intro id q context hq hfind hmem hreqs
    rcases List.mem_append.mp hmem with hmem | hmem
    · exact hkept hmem
    · rw [hreqs]
      exact dropped_of_cancel hinv hq hfind hmem
  cases h with
  | cancelledLast hq hfind => exact hcancelled hq hfind hd rfl
  | cancelledShared hq hfind => exact hcancelled hq hfind hd rfl
  | cancelledForeign hq hfind => exact hcancelled hq hfind hd rfl
  | _ => exact hkept hd

/-- **Step.** Every event keeps the invariant. -/
theorem inv_step (hinv : Inv s) (h : step s event = some s') : Inv s' :=
  have hmoves := moves_of_step h
  { nodup := nodup_moves hinv hmoves
    inPlace := places_moves hmoves hinv.inPlace
    first := first_moves hinv hmoves
    home := home_moves hinv hmoves
    owner := owner_moves hinv hmoves
    unanswered := unanswered_moves hinv hmoves
    answered := answered_moves hinv hmoves
    dropped := dropped_moves hinv hmoves
    cancelling := cancelling_moves hinv hmoves }

end Preservation

/-- **Run.** The invariant holds at the end of every run. -/
theorem inv_run {events : List (Event Key Response)} {s : State Key Response}
    (h : run events = some s) : Inv s :=
  invariant_of_steps Inv (fun _ _ _ hinv hstep => inv_step hinv hstep) h inv_init

end OlpEdgeSdk.Analysis.MultiRequestContext

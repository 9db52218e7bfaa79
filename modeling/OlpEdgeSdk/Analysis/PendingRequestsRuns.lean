import Mathlib.Data.List.Perm.Basic
import OlpEdgeSdk.Model.PendingRequests

/-!
# Which requests are pending

In every run of a client, the map of pending requests has an entry, with its token, for every
request that is under way; and it has no others as long as no `PrefetchTiles` call has called
back. The callback of such a call does not remove its entry.

SOURCE: PendingRequests.cpp, CatalogClientImpl.cpp
-/

set_option autoImplicit false

namespace OlpEdgeSdk.Analysis.CatalogClientImpl

open OlpEdgeSdk.Base OlpEdgeSdk.Model OlpEdgeSdk.Model.CatalogClientImpl
open OlpEdgeSdk.Model.CatalogClientImpl.State

/-! ## The operations on the map -/

section Operations

variable (p : PendingRequests) (key other : ℕ)

/-- A token is only put where there is a placeholder. -/
theorem find_insert_token : (p.insert (some key) key).1.requestsMap.find other =
    if other = key then (p.requestsMap.find key).map fun _ => some key
    else p.requestsMap.find other := by
  unfold PendingRequests.insert
  split
  · rename_i hnone
    split
    · rename_i heq
      rw [heq, hnone, Option.map_none]
    · rfl
  · rename_i token htoken
    rw [SortedMap.find_insert, htoken, Option.map_some]

theorem key_insert (request : Option ℕ) : (p.insert request key).1.key = p.key := by
  unfold PendingRequests.insert
  split <;> rfl

theorem find_remove : (p.remove key).1.requestsMap.find other =
    if other = key then none else p.requestsMap.find other := by
  unfold PendingRequests.remove
  split
  · exact SortedMap.find_erase _ _ _
  · rename_i hnone
    split
    · rename_i heq
      rw [heq, hnone]
    · rfl

theorem key_remove : (p.remove key).1.key = p.key := by
  unfold PendingRequests.remove
  split <;> rfl

theorem removed_iff : (p.remove key).2 = true ↔ ∃ token, p.requestsMap.find key = some token := by
  unfold PendingRequests.remove
  split
  · rename_i token htoken
    simp [htoken]
  · rename_i hnone
    simp [hnone]

end Operations

/-! ## What an event can do -/

/-- The keys whose repository a call has yet to call. -/
def keysToStart : Call → List ℕ
  | .registered requestKey _ => [requestKey]
  | .onlineRegistered _ onlineKey => [onlineKey]
  | _ => []

/-- The keys whose token a call has yet to insert. -/
def keysToInsert : Call → List ℕ
  | .registered requestKey _ => [requestKey]
  | .running requestKey _ => [requestKey]
  | .onlineRegistered requestKey onlineKey => [requestKey, onlineKey]
  | .onlineRunning requestKey onlineKey => [requestKey, onlineKey]
  | .onlineInserted requestKey => [requestKey]

/-- The registered requests that no repository was called for. -/
def toStart (calls : List Call) : List ℕ := calls.flatMap keysToStart

/-- The registered requests whose token was not inserted. -/
def toInsert (calls : List Call) : List ℕ := calls.flatMap keysToInsert

/-- The requests that a repository was called for. -/
def startedKeys (s : State) : List ℕ := s.started.map Prod.fst

/-- What an event can do to a state. Of the calls under way only the keys matter that they
have yet to start and to insert. -/
inductive Moves (s : State) : Event → State → Prop where
  | registered {event : Event} (calls : List Call)
      (hstart : (toStart calls).Perm ((s.pending.key + 1) :: toStart s.calls))
      (hinsert : (toInsert calls).Perm ((s.pending.key + 1) :: toInsert s.calls)) :
      Moves s event { s with
        pending := ⟨s.pending.key + 1, s.pending.requestsMap.insert (s.pending.key + 1) none⟩
        calls := calls }
  | started {event : Event} (calls : List Call) (key : ℕ) (callback : Callback)
      (hstart : (toStart s.calls).Perm (key :: toStart calls))
      (hinsert : (toInsert calls).Perm (toInsert s.calls)) :
      Moves s event { s with
        started := s.started ++ [(key, callback)]
        calls := calls }
  | inserted {event : Event} (calls : List Call) (key : ℕ)
      (hstart : (toStart calls).Perm (toStart s.calls))
      (hinsert : (toInsert s.calls).Perm (key :: toInsert calls)) :
      Moves s event { s with
        pending := (s.pending.insert (some key) key).1
        calls := calls }
  | answered {key : ℕ} {callback : Callback} (hmem : (key, callback) ∈ s.started) :
      Moves s (.answer key) (s.answer key callback)
  | invoked {key : ℕ} (hdue : key ∈ s.due) :
      Moves s (.invoke key) { s with
        due := s.due.erase key
        finished := s.finished ++ [key] }
  | snapshot : Moves s .cancelPendingRequests { s with
      cancelling := s.cancelling ++ s.pending.cancelPendingRequests }
  | cancelled {key : ℕ} : Moves s (.cancelToken key) { s with
      cancelling := s.cancelling.erase key
      cancelled := s.cancelled ++ [key] }

section Calls

variable {calls : List Call} {c : Call} {requestKey : ℕ}

theorem toStart_append (l l' : List Call) : toStart (l ++ l') = toStart l ++ toStart l' :=
  List.flatMap_append

theorem toInsert_append (l l' : List Call) : toInsert (l ++ l') = toInsert l ++ toInsert l' :=
  List.flatMap_append

/-- The keys of a call that is taken out, before those of the others. -/
theorem toStart_perm_of_find? {p : Call → Bool} (h : calls.find? p = some c) :
    (toStart calls).Perm (keysToStart c ++ toStart (calls.eraseP p)) :=
  (Assoc.perm_of_find? h).flatMap_right keysToStart

theorem toInsert_perm_of_find? {p : Call → Bool} (h : calls.find? p = some c) :
    (toInsert calls).Perm (keysToInsert c ++ toInsert (calls.eraseP p)) :=
  (Assoc.perm_of_find? h).flatMap_right keysToInsert

end Calls

/-- The step of a call that was found among the calls under way. -/
theorem moves_advance {s : State} {c : Call} {p : Call → Bool} {event : Event}
    (h : s.calls.find? p = some c) :
    Moves s event ({ s with calls := s.calls.eraseP p }.advance c) := by
  have hstart := toStart_perm_of_find? h
  have hinsert := toInsert_perm_of_find? h
  cases c with
  | registered requestKey routine =>
    refine Moves.started _ requestKey routine.callback ?_ ?_
    · simpa [toStart_append, toStart, keysToStart] using hstart
    · rw [toInsert_append]
      exact List.perm_append_comm.trans hinsert.symm
  | running requestKey background =>
    cases background with
    | true =>
      refine Moves.registered _ ?_ ?_
      · rw [toStart_append]
        exact List.perm_append_comm.trans (hstart.symm.cons _)
      · rw [toInsert_append]
        refine List.perm_append_comm.trans ((List.Perm.swap _ _ _).trans (hinsert.symm.cons _))
    | false => exact Moves.inserted _ requestKey hstart.symm hinsert
  | onlineRegistered requestKey onlineKey =>
    refine Moves.started _ onlineKey .background ?_ ?_
    · simpa [toStart_append, toStart, keysToStart] using hstart
    · rw [toInsert_append]
      exact List.perm_append_comm.trans hinsert.symm
  | onlineRunning requestKey onlineKey =>
    refine Moves.inserted _ onlineKey ?_ ?_
    · simpa [toStart_append, toStart, keysToStart] using hstart.symm
    · rw [toInsert_append]
      refine hinsert.trans ((List.Perm.swap _ _ _).trans (List.Perm.cons _ ?_))
      exact (List.perm_append_singleton requestKey _).symm
  | onlineInserted requestKey => exact Moves.inserted _ requestKey hstart.symm hinsert

theorem answered_of_step {s s' : State} {key : ℕ} (h : step s (.answer key) = some s') :
    ∃ callback, (key, callback) ∈ s.started ∧ s' = s.answer key callback := by
  unfold step at h
  dsimp only at h
  split at h
  · rename_i p hfind
    obtain rfl : p.1 = key := by simpa using List.find?_some hfind
    exact ⟨p.2, List.mem_of_find?_eq_some hfind, (Option.some.inj h).symm⟩
  · cases h

theorem moves_of_step {s s' : State} {event : Event} (h : step s event = some s') :
    Moves s event s' := by
  cases event with
  | call api =>
    cases h
    refine Moves.registered _ ?_ ?_
    · rw [toStart_append]
      exact List.perm_append_singleton _ _
    · rw [toInsert_append]
      exact List.perm_append_singleton _ _
  | advance requestKey =>
    unfold step at h
    dsimp only at h
    split at h
    · rename_i c hfind
      cases h
      exact moves_advance hfind
    · cases h
  | answer key =>
    obtain ⟨callback, hmem, rfl⟩ := answered_of_step h
    exact Moves.answered hmem
  | invoke key =>
    unfold step at h
    dsimp only at h
    split at h
    · rename_i hdue
      cases h
      exact Moves.invoked hdue
    · cases h
  | cancelPendingRequests =>
    cases h
    exact Moves.snapshot
  | cancelToken key =>
    unfold step at h
    dsimp only at h
    split at h
    · cases h
      exact Moves.cancelled
    · cases h

/-! ## The invariant -/

/-- The map has an entry for the key. -/
def Registered (s : State) (key : ℕ) : Prop := ∃ token, s.pending.requestsMap.find key = some token

/-- What holds in every state of every run. -/
structure Inv (s : State) : Prop where
  /-- No request is registered or started twice. -/
  nodup : (toStart s.calls ++ startedKeys s).Nodup
  /-- The keys come from the counter. -/
  drawn : ∀ key ∈ toStart s.calls ++ startedKeys s, key ≤ s.pending.key
  /-- A request that was not started has its placeholder. -/
  unstarted : ∀ key ∈ toStart s.calls, Registered s key
  /-- Only registered and started requests have an entry. -/
  known : ∀ key, Registered s key → key ∈ toStart s.calls ++ startedKeys s
  /-- An entry without a token belongs to a call that will insert it. -/
  untokened : ∀ key, s.pending.requestsMap.find key = some none → key ∈ toInsert s.calls
  /-- A token is that of its own request. -/
  token : ∀ key owner, s.pending.requestsMap.find key = some (some owner) → owner = key
  /-- The entry of a request whose callback removes it is there until the callback runs. -/
  removed : ∀ key callback, (key, callback) ∈ s.started → callback ≠ .caller →
    (Registered s key ↔ key ∉ s.due ∧ key ∉ s.finished)
  /-- The entry of a request with the callback of the caller is always there. -/
  kept : ∀ key, (key, .caller) ∈ s.started → Registered s key
  /-- Callbacks run for requests that were started. -/
  ended : ∀ key, key ∈ s.due ∨ key ∈ s.finished → key ∈ startedKeys s

theorem inv_init : Inv init where
  nodup := List.nodup_nil
  drawn _ h := nomatch h
  unstarted _ h := nomatch h
  known _ h := by
    obtain ⟨token, h⟩ := h
    cases h
  untokened _ h := nomatch h
  token _ _ h := nomatch h
  removed _ _ h := nomatch h
  kept _ h := nomatch h
  ended _ h := by simp [init] at h

section Steps

variable {s : State}

theorem Inv.fresh (hinv : Inv s) :
    s.pending.key + 1 ∉ toStart s.calls ++ startedKeys s := by
  intro hmem
  have hle := hinv.drawn _ hmem
  omega

theorem inv_registered (hinv : Inv s) {calls : List Call}
    (hstart : (toStart calls).Perm ((s.pending.key + 1) :: toStart s.calls))
    (hinsert : (toInsert calls).Perm ((s.pending.key + 1) :: toInsert s.calls)) :
    Inv { s with
      pending := ⟨s.pending.key + 1, s.pending.requestsMap.insert (s.pending.key + 1) none⟩
      calls := calls } := by
  have hfresh := hinv.fresh
  have hmem : ∀ key, key ∈ toStart calls ↔ key = s.pending.key + 1 ∨ key ∈ toStart s.calls := by
    intro key
    rw [hstart.mem_iff, List.mem_cons]
  -- the entries of the other keys are as they were
  have hother : ∀ key token, key ≠ s.pending.key + 1 →
      ((s.pending.requestsMap.insert (s.pending.key + 1) none).find key = some token ↔
        s.pending.requestsMap.find key = some token) := by
    intro key token hne
    rw [SortedMap.find_insert, if_neg hne]
  have hself : ∀ token, (s.pending.requestsMap.insert (s.pending.key + 1) none).find
      (s.pending.key + 1) = some token → token = none := by
    intro token h
    rw [SortedMap.find_insert_self] at h
    exact (Option.some.inj h).symm
  have hold : ∀ key ∈ startedKeys s, key ≠ s.pending.key + 1 := by
    rintro key hkey rfl
    exact hfresh (List.mem_append_right _ hkey)
  refine ⟨?_, ?_, ?_, ?_, ?_, ?_, ?_, ?_, hinv.ended⟩
  · refine (hstart.append_right _).nodup_iff.mpr ?_
    exact List.nodup_cons.mpr ⟨hfresh, hinv.nodup⟩
  · intro key hkey
    rw [List.mem_append, hmem] at hkey
    rcases hkey with (rfl | hkey) | hkey
    · exact le_refl _
    · exact (hinv.drawn key (List.mem_append_left _ hkey)).trans (Nat.le_succ _)
    · exact (hinv.drawn key (List.mem_append_right _ hkey)).trans (Nat.le_succ _)
  · intro key hkey
    rcases (hmem key).mp hkey with rfl | hkey
    · exact ⟨none, SortedMap.find_insert_self _ _ _⟩
    · obtain ⟨token, htoken⟩ := hinv.unstarted key hkey
      refine ⟨token, (hother key token ?_).mpr htoken⟩
      rintro rfl
      exact hfresh (List.mem_append_left _ hkey)
  · rintro key ⟨token, htoken⟩
    by_cases hkey : key = s.pending.key + 1
    · exact List.mem_append_left _ ((hmem key).mpr (Or.inl hkey))
    · rcases List.mem_append.mp (hinv.known key ⟨token, (hother key token hkey).mp htoken⟩) with
        h | h
      · exact List.mem_append_left _ ((hmem key).mpr (Or.inr h))
      · exact List.mem_append_right _ h
  · intro key htoken
    rw [hinsert.mem_iff, List.mem_cons]
    by_cases hkey : key = s.pending.key + 1
    · exact Or.inl hkey
    · exact Or.inr (hinv.untokened key ((hother key none hkey).mp htoken))
  · intro key owner htoken
    by_cases hkey : key = s.pending.key + 1
    · subst hkey
      cases hself _ htoken
    · exact hinv.token key owner ((hother key _ hkey).mp htoken)
  · intro key callback hstarted hcallback
    have hne := hold key (List.mem_map_of_mem hstarted)
    rw [← hinv.removed key callback hstarted hcallback]
    exact exists_congr fun token => hother key token hne
  · intro key hstarted
    have hne := hold key (List.mem_map_of_mem hstarted)
    obtain ⟨token, htoken⟩ := hinv.kept key hstarted
    exact ⟨token, (hother key token hne).mpr htoken⟩

theorem inv_started (hinv : Inv s) {calls : List Call} {key : ℕ} {callback : Callback}
    (hstart : (toStart s.calls).Perm (key :: toStart calls))
    (hinsert : (toInsert calls).Perm (toInsert s.calls)) :
    Inv { s with started := s.started ++ [(key, callback)], calls := calls } := by
  have hall : (toStart calls ++ (s.started ++ [(key, callback)]).map Prod.fst).Perm
      (toStart s.calls ++ startedKeys s) := by
    rw [List.map_append, ← List.append_assoc]
    exact (List.perm_append_singleton key _).trans (hstart.append_right _).symm
  have hmem : key ∈ toStart s.calls := hstart.mem_iff.mpr List.mem_cons_self
  have hnew : key ∉ startedKeys s := fun h => List.disjoint_of_nodup_append hinv.nodup hmem h
  refine ⟨hall.nodup_iff.mpr hinv.nodup, fun k hk => hinv.drawn k (hall.mem_iff.mp hk),
    fun k hk => hinv.unstarted k (hstart.mem_iff.mpr (List.mem_cons_of_mem _ hk)),
    fun k hk => hall.mem_iff.mpr (hinv.known k hk),
    fun k hk => hinsert.mem_iff.mpr (hinv.untokened k hk), hinv.token, ?_, ?_, ?_⟩
  · intro k cb hk hcb
    rcases List.mem_append.mp hk with hk | hk
    · exact hinv.removed k cb hk hcb
    · obtain ⟨rfl, rfl⟩ := Prod.mk.inj (List.mem_singleton.mp hk)
      exact ⟨fun _ => ⟨fun h => hnew (hinv.ended k (Or.inl h)),
        fun h => hnew (hinv.ended k (Or.inr h))⟩, fun _ => hinv.unstarted k hmem⟩
  · intro k hk
    rcases List.mem_append.mp hk with hk | hk
    · exact hinv.kept k hk
    · obtain ⟨rfl, -⟩ := Prod.mk.inj (List.mem_singleton.mp hk)
      exact hinv.unstarted k hmem
  · intro k hk
    have hold := hinv.ended k hk
    simp only [startedKeys, List.map_append, List.mem_append]
    exact Or.inl hold

theorem inv_inserted (hinv : Inv s) {calls : List Call} {key : ℕ}
    (hstart : (toStart calls).Perm (toStart s.calls))
    (hinsert : (toInsert s.calls).Perm (key :: toInsert calls)) :
    Inv { s with pending := (s.pending.insert (some key) key).1, calls := calls } := by
  have hfind := find_insert_token s.pending key
  have hregistered : ∀ k, (∃ token, (s.pending.insert (some key) key).1.requestsMap.find k =
      some token) ↔ Registered s k := by
    intro k
    rw [hfind, Registered]
    split
    · rename_i heq
      simp [heq, Option.map_eq_some_iff]
    · rfl
  have hmem : ∀ k, k ∈ toStart calls ++ startedKeys s ↔ k ∈ toStart s.calls ++ startedKeys s :=
    fun k => (hstart.append_right _).mem_iff
  refine ⟨(hstart.append_right _).nodup_iff.mpr hinv.nodup, ?_, ?_, ?_, ?_, ?_, ?_, ?_, hinv.ended⟩
  · intro k hk
    rw [key_insert]
    exact hinv.drawn k ((hmem k).mp hk)
  · exact fun k hk => (hregistered k).mpr (hinv.unstarted k (hstart.mem_iff.mp hk))
  · exact fun k hk => (hmem k).mpr (hinv.known k ((hregistered k).mp hk))
  · intro k hk
    rw [hfind] at hk
    split at hk
    · simp [Option.map_eq_some_iff] at hk
    · rename_i hne
      exact (List.mem_cons.mp (hinsert.mem_iff.mp (hinv.untokened k hk))).resolve_left hne
  · intro k owner hk
    rw [hfind] at hk
    split at hk
    · rename_i heq
      obtain ⟨_, -, howner⟩ := Option.map_eq_some_iff.mp hk
      rw [heq]
      exact (Option.some.inj howner).symm
    · exact hinv.token k owner hk
  · exact fun k cb hk hcb => (hregistered k).trans (hinv.removed k cb hk hcb)
  · exact fun k hk => (hregistered k).mpr (hinv.kept k hk)

theorem Inv.callback_eq (hinv : Inv s) {key : ℕ} {cb cb' : Callback}
    (h : (key, cb) ∈ s.started) (h' : (key, cb') ∈ s.started) : cb = cb' :=
  (Prod.mk.inj (List.inj_on_of_nodup_map (List.Nodup.of_append_right hinv.nodup) h h' rfl)).2

/-- The entry of a request whose callback removes it is taken out, and the callback is about
to run or has run. -/
theorem inv_removed (hinv : Inv s) {key : ℕ} {callback : Callback} {due finished : List ℕ}
    (hmem : (key, callback) ∈ s.started) (hcallback : callback ≠ .caller)
    (hothers : ∀ k, k ∈ due ∨ k ∈ finished ↔ k = key ∨ k ∈ s.due ∨ k ∈ s.finished) :
    Inv { s with pending := (s.pending.remove key).1, due := due, finished := finished } := by
  have hfind := find_remove s.pending key
  have hstarted : key ∈ startedKeys s := List.mem_map_of_mem hmem
  have hregistered : ∀ k, (∃ token, (s.pending.remove key).1.requestsMap.find k = some token) ↔
      k ≠ key ∧ Registered s k := by
    intro k
    rw [hfind, Registered]
    split <;> simp_all
  refine ⟨hinv.nodup, ?_, ?_, ?_, ?_, ?_, ?_, ?_, ?_⟩
  · intro k hk
    rw [key_remove]
    exact hinv.drawn k hk
  · refine fun k hk => (hregistered k).mpr ⟨?_, hinv.unstarted k hk⟩
    rintro rfl
    exact List.disjoint_of_nodup_append hinv.nodup hk hstarted
  · exact fun k hk => hinv.known k ((hregistered k).mp hk).2
  · intro k hk
    rw [hfind] at hk
    split at hk
    · cases hk
    · exact hinv.untokened k hk
  · intro k owner hk
    rw [hfind] at hk
    split at hk
    · cases hk
    · exact hinv.token k owner hk
  · intro k cb hk hcb
    have hends : ¬ (k ∈ due ∨ k ∈ finished) ↔ ¬ (k = key ∨ k ∈ s.due ∨ k ∈ s.finished) :=
      not_congr (hothers k)
    rw [not_or, not_or, not_or, ← hinv.removed k cb hk hcb] at hends
    exact (hregistered k).trans hends.symm
  · intro k hk
    refine (hregistered k).mpr ⟨?_, hinv.kept k hk⟩
    rintro rfl
    exact hcallback (hinv.callback_eq hmem hk)
  · intro k hk
    rcases (hothers k).mp hk with rfl | hk
    · exact hstarted
    · exact hinv.ended k hk

theorem inv_ended (hinv : Inv s) {due finished : List ℕ}
    (hothers : ∀ k, k ∈ due ∨ k ∈ finished → k ∈ startedKeys s)
    (hremoved : ∀ k cb, (k, cb) ∈ s.started → cb ≠ .caller →
      (k ∈ due ∨ k ∈ finished ↔ k ∈ s.due ∨ k ∈ s.finished)) :
    Inv { s with due := due, finished := finished } := by
  refine ⟨hinv.nodup, hinv.drawn, hinv.unstarted, hinv.known, hinv.untokened, hinv.token, ?_,
    hinv.kept, hothers⟩
  intro k cb hk hcb
  have hold := hinv.removed k cb hk hcb
  rw [← not_or] at hold ⊢
  rw [hremoved k cb hk hcb]
  exact hold

theorem inv_answered (hinv : Inv s) {key : ℕ} {callback : Callback}
    (hmem : (key, callback) ∈ s.started) : Inv (s.answer key callback) := by
  cases callback with
  | request =>
    suffices hends : ∀ k, (k ∈ if (s.pending.remove key).2 then s.due ++ [key] else s.due) ∨
        k ∈ s.finished ↔ k = key ∨ k ∈ s.due ∨ k ∈ s.finished from
      inv_removed hinv hmem (by decide) hends
    intro k
    by_cases hremoved : (s.pending.remove key).2 = true
    · rw [if_pos hremoved, List.mem_append, List.mem_singleton]
      tauto
    · -- the entry was taken out before, so the callback has run or is about to
      rw [if_neg hremoved]
      have hgone : ¬ Registered s key := fun h => hremoved ((removed_iff s.pending key).mpr h)
      rw [hinv.removed key _ hmem (by decide), ← not_or, not_not] at hgone
      constructor
      · exact Or.inr
      · rintro (rfl | h)
        · exact hgone
        · exact h
  | background =>
    refine inv_removed hinv hmem (by decide) fun k => ?_
    rw [List.mem_append, List.mem_singleton]
    tauto
  | caller =>
    refine inv_ended hinv (fun k hk => ?_) fun k cb hk hcb => ?_
    · rw [List.mem_append, List.mem_singleton] at hk
      rcases hk with (hk | rfl) | hk
      · exact hinv.ended k (Or.inl hk)
      · exact List.mem_map_of_mem hmem
      · exact hinv.ended k (Or.inr hk)
    · have hne : k ≠ key := by
        rintro rfl
        exact hcb (hinv.callback_eq hk hmem)
      rw [List.mem_append, List.mem_singleton]
      simp [hne]

theorem inv_invoked (hinv : Inv s) {key : ℕ} (hdue : key ∈ s.due) :
    Inv { s with due := s.due.erase key, finished := s.finished ++ [key] } := by
  have hsame : ∀ k, k ∈ s.due.erase key ∨ k ∈ s.finished ++ [key] ↔ k ∈ s.due ∨ k ∈ s.finished := by
    intro k
    rw [List.mem_append, List.mem_singleton]
    by_cases hk : k = key
    · simp [hk, hdue]
    · simp [hk, List.mem_erase_of_ne]
  exact inv_ended hinv (fun k hk => hinv.ended k ((hsame k).mp hk)) fun k _ _ _ => hsame k

end Steps

/-- **Every step keeps the invariant.** -/
theorem inv_step {s s' : State} {event : Event} (hinv : Inv s) (h : step s event = some s') :
    Inv s' := by
  cases moves_of_step h with
  | registered calls hstart hinsert => exact inv_registered hinv hstart hinsert
  | started calls key callback hstart hinsert => exact inv_started hinv hstart hinsert
  | inserted calls key hstart hinsert => exact inv_inserted hinv hstart hinsert
  | answered hmem => exact inv_answered hinv hmem
  | invoked hdue => exact inv_invoked hinv hdue
  | snapshot => exact { hinv with }
  | cancelled => exact { hinv with }

theorem inv_run {events : List Event} {s : State} (h : run events = some s) : Inv s :=
  invariant_of_steps Inv (fun _ _ _ => inv_step) h inv_init

/-! ## Which callbacks have run -/

section Ended

variable {s s' : State} {event : Event} {key : ℕ}

theorem started_subset (h : Moves s event s') : s.started ⊆ s'.started := by
  cases h with
  | started => exact List.subset_append_left _ _
  | answered hmem =>
    rename_i key callback
    cases callback <;> exact List.Subset.refl _
  | _ => exact List.Subset.refl _

/-- A callback that is about to run, or has run, was so before or is called now. -/
theorem ended_moves (h : Moves s event s') (hkey : key ∈ s'.due ∨ key ∈ s'.finished) :
    (key ∈ s.due ∨ key ∈ s.finished) ∨ event = .answer key := by
  have hone : ∀ {l : List ℕ} {k : ℕ}, key ∈ l ++ [k] → key ∈ l ∨ Event.answer k = .answer key := by
    intro l k hmem
    rcases List.mem_append.mp hmem with hmem | hmem
    · exact Or.inl hmem
    · rw [List.mem_singleton.mp hmem]
      exact Or.inr rfl
  cases h with
  | answered hmem =>
    rename_i k callback
    cases callback with
    | request =>
      rcases hkey with hkey | hkey
      · unfold State.answer at hkey
        dsimp only at hkey
        split at hkey
        · exact (hone hkey).imp_left Or.inl
        · exact Or.inl (Or.inl hkey)
      · exact Or.inl (Or.inr hkey)
    | background =>
      rcases hkey with hkey | hkey
      · exact Or.inl (Or.inl hkey)
      · exact (hone hkey).imp_left Or.inr
    | caller =>
      rcases hkey with hkey | hkey
      · exact (hone hkey).imp_left Or.inl
      · exact Or.inl (Or.inr hkey)
  | invoked hdue =>
    rename_i k
    rcases hkey with hkey | hkey
    · exact Or.inl (Or.inl (List.mem_of_mem_erase hkey))
    · rcases List.mem_append.mp hkey with hkey | hkey
      · exact Or.inl (Or.inr hkey)
      · rw [List.mem_singleton.mp hkey]
        exact Or.inl (Or.inl hdue)
  | _ => exact Or.inl hkey

theorem ended_kept (h : Moves s event s') (hkey : key ∈ s.due ∨ key ∈ s.finished) :
    key ∈ s'.due ∨ key ∈ s'.finished := by
  cases h with
  | answered hmem =>
    rename_i k callback
    cases callback with
    | request =>
      refine hkey.imp_left fun hkey => ?_
      unfold State.answer
      dsimp only
      split
      · exact List.mem_append_left _ hkey
      · exact hkey
    | background => exact hkey.imp_right (List.mem_append_left _)
    | caller => exact hkey.imp_left (List.mem_append_left _)
  | invoked hdue =>
    rename_i k
    by_cases heq : key = k
    · exact Or.inr (List.mem_append_right _ (List.mem_singleton.mpr heq))
    · exact hkey.imp ((List.mem_erase_of_ne heq).mpr) (List.mem_append_left _)
  | _ => exact hkey

theorem answer_mem_of_ended {events : List Event} (h : run events = some s)
    (hkey : key ∈ s.due ∨ key ∈ s.finished) : .answer key ∈ events := by
  have hcaused := caused_runFrom (P := fun s : State => key ∈ s.due ∨ key ∈ s.finished)
    (C := fun event => event = .answer key)
    (fun s event s' hstep hp => ended_moves (moves_of_step hstep) hp) h hkey
  rcases hcaused with hnone | ⟨event, hmem, rfl⟩
  · simp [init] at hnone
  · exact hmem

/-- The callback of a caller runs when it is called. -/
theorem ended_of_answer {events : List Event} (hrun : runFrom step s events = some s')
    (hinv : Inv s) (hmem : .answer key ∈ events) (hcaller : (key, .caller) ∈ s'.started) :
    key ∈ s'.due ∨ key ∈ s'.finished := by
  induction events generalizing s with
  | nil => cases hmem
  | cons event events ih =>
    obtain ⟨m, hm, hrest⟩ := runFrom_cons.mp hrun
    have hinvm := inv_step hinv hm
    rcases List.mem_cons.mp hmem with rfl | hmem
    · refine invariant_of_steps (fun s => key ∈ s.due ∨ key ∈ s.finished)
        (fun _ _ _ hended hstep => ended_kept (moves_of_step hstep) hended) hrest ?_
      have hinv' : Inv s' := invariant_of_steps Inv (fun _ _ _ => inv_step) hrest hinvm
      obtain ⟨callback, hstarted, rfl⟩ := answered_of_step hm
      have hlater := invariant_of_steps (fun s => (key, callback) ∈ s.started)
        (fun _ _ _ hold hstep => started_subset (moves_of_step hstep) hold) hrun hstarted
      obtain rfl := hinv'.callback_eq hlater hcaller
      exact Or.inl (List.mem_append_right _ (List.mem_singleton_self _))
    · exact ih hrest hinvm hmem

end Ended

/-! ## Main result -/

/-- No call of the interface is under way and no callback about to run. -/
def Quiescent (s : State) : Prop := s.calls = [] ∧ s.due = []

/-- The requests and background requests whose callback has not run. -/
def unfinished (s : State) : List ℕ := (startedKeys s).filter fun key => key ∉ s.finished

theorem mem_unfinished {s : State} {key : ℕ} :
    key ∈ unfinished s ↔ key ∈ startedKeys s ∧ key ∉ s.finished := by
  simp [unfinished]

theorem exists_callback {s : State} {key : ℕ} (h : key ∈ startedKeys s) :
    ∃ callback, (key, callback) ∈ s.started := by
  obtain ⟨p, hmem, rfl⟩ := List.mem_map.mp h
  exact ⟨p.2, hmem⟩

/-- In a quiescent state an unfinished request has an entry with its own token. -/
theorem find_of_unfinished {s : State} (hinv : Inv s) (hquiet : Quiescent s) {key : ℕ}
    (h : key ∈ unfinished s) : s.pending.requestsMap.find key = some (some key) := by
  obtain ⟨hstarted, hfinished⟩ := mem_unfinished.mp h
  obtain ⟨callback, hmem⟩ := exists_callback hstarted
  have hregistered : Registered s key := by
    by_cases hcallback : callback = .caller
    · subst hcallback
      exact hinv.kept _ hmem
    · refine (hinv.removed _ callback hmem hcallback).mpr ⟨?_, hfinished⟩
      rw [hquiet.2]
      exact List.not_mem_nil
  obtain ⟨token, htoken⟩ := hregistered
  cases token with
  | none =>
    have hcall := hinv.untokened _ htoken
    rw [hquiet.1] at hcall
    cases hcall
  | some owner =>
    rw [htoken, hinv.token _ owner htoken]

/-- In a quiescent state the entries are those of the unfinished requests and of the finished
ones with the callback of the caller. -/
theorem registered_iff {s : State} (hinv : Inv s) (hquiet : Quiescent s) {key : ℕ} :
    Registered s key ↔
      key ∈ unfinished s ∨ (key, .caller) ∈ s.started ∧ key ∈ s.finished := by
  constructor
  · intro h
    have hknown := hinv.known key h
    rw [hquiet.1] at hknown
    obtain ⟨callback, hmem⟩ := exists_callback hknown
    by_cases hfinished : key ∈ s.finished
    · refine Or.inr ⟨?_, hfinished⟩
      by_cases hcallback : callback = .caller
      · rw [← hcallback]
        exact hmem
      · exact absurd hfinished ((hinv.removed _ callback hmem hcallback).mp h).2
    · exact Or.inl (mem_unfinished.mpr ⟨hknown, hfinished⟩)
  · rintro (h | ⟨h, -⟩)
    · exact ⟨_, find_of_unfinished hinv hquiet h⟩
    · exact hinv.kept key h

/-- **In a quiescent state of any run, `CancelPendingRequests` reaches every request whose
callback has not run; and the map has exactly one entry for each of them and no others iff no
`PrefetchTiles` call has been answered.**
SOURCE: PendingRequests.cpp:30-66, CatalogClientImpl.cpp:73-255 -/
theorem entries_are_unfinished_iff (events : List Event) (s : State) (h : run events = some s)
    (hquiet : Quiescent s) :
    (∀ s', step s .cancelPendingRequests = some s' → ∀ key ∈ unfinished s, key ∈ s'.cancelling) ∧
      ((Assoc.keys s.pending.requestsMap.entries).Perm (unfinished s) ↔
        ∀ key, .answer key ∈ events → (key, .caller) ∉ s.started) := by
  have hinv := inv_run h
  have hmem : ∀ key, key ∈ Assoc.keys s.pending.requestsMap.entries ↔
      key ∈ unfinished s ∨ (key, .caller) ∈ s.started ∧ key ∈ s.finished :=
    fun key => SortedMap.mem_keys.trans (registered_iff hinv hquiet)
  refine ⟨?_, ?_, ?_⟩
  · intro s' hstep key hkey
    cases hstep
    refine List.mem_append_right _ (List.mem_filterMap.mpr ⟨(key, some key), ?_, rfl⟩)
    exact SortedMap.mem_of_find (find_of_unfinished hinv hquiet hkey)
  · intro hperm key hanswer hcaller
    have hfinished : key ∈ s.finished := by
      have hended := ended_of_answer h inv_init hanswer hcaller
      rw [hquiet.2] at hended
      exact hended.resolve_left List.not_mem_nil
    have hunfinished := hperm.mem_iff.mp ((hmem key).mpr (Or.inr ⟨hcaller, hfinished⟩))
    exact (mem_unfinished.mp hunfinished).2 hfinished
  · intro hnone
    have hnodup : (startedKeys s).Nodup := List.Nodup.of_append_right hinv.nodup
    refine (List.perm_ext_iff_of_nodup (s.pending.requestsMap.sorted.imp ne_of_lt)
      (hnodup.filter _)).mpr fun key => ?_
    rw [hmem]
    constructor
    · rintro (hkey | ⟨hcaller, hfinished⟩)
      · exact hkey
      · exact absurd hcaller (hnone key (answer_mem_of_ended h (Or.inr hfinished)))
    · exact Or.inl

/-- A request with a background update is answered inside the call; the update is pending. -/
theorem background_update_is_pending :
    ∃ s, run [.call (.getData { fetchOption := .cacheWithUpdate }), .advance 1, .answer 1,
        .invoke 1, .advance 1, .advance 1, .advance 1, .advance 1] = some s ∧
      Quiescent s ∧ unfinished s = [2] ∧
      (Assoc.keys s.pending.requestsMap.entries).Perm (unfinished s) := by
  have hrun : ((run [.call (.getData { fetchOption := .cacheWithUpdate }), .advance 1, .answer 1,
      .invoke 1, .advance 1, .advance 1, .advance 1, .advance 1]).map
      fun s => (s.calls, s.due, s.started, s.finished)) =
      some ([], [], [(1, .request), (2, .background)], [1]) := rfl
  obtain ⟨s, hs, hstate⟩ := Option.map_eq_some_iff.mp hrun
  simp only [Prod.mk.injEq] at hstate
  obtain ⟨hcalls, hdue, hstarted, hfinished⟩ := hstate
  refine ⟨s, hs, ⟨hcalls, hdue⟩, ?_, ?_⟩
  · simp [unfinished, startedKeys, hstarted, hfinished]
  · refine (entries_are_unfinished_iff _ s hs ⟨hcalls, hdue⟩).2.mpr fun key _ => ?_
    rw [hstarted]
    simp

/-- A `PrefetchTiles` call whose callback has run leaves its entry behind. -/
theorem prefetch_leaves_entry :
    ∃ s, run [.call .prefetchTiles, .advance 1, .advance 1, .answer 1, .invoke 1] = some s ∧
      Quiescent s ∧ unfinished s = [] ∧ Assoc.keys s.pending.requestsMap.entries = [1] := by
  have hrun : ((run [.call .prefetchTiles, .advance 1, .advance 1, .answer 1, .invoke 1]).map
      fun s => (s.calls, s.due, s.started, s.finished, s.pending.requestsMap.entries)) =
      some ([], [], [(1, .caller)], [1], [(1, some 1)]) := rfl
  obtain ⟨s, hs, hstate⟩ := Option.map_eq_some_iff.mp hrun
  simp only [Prod.mk.injEq] at hstate
  obtain ⟨hcalls, hdue, hstarted, hfinished, hentries⟩ := hstate
  refine ⟨s, hs, ⟨hcalls, hdue⟩, ?_, ?_⟩
  · simp [unfinished, startedKeys, hstarted, hfinished]
  · rw [hentries]
    rfl

end OlpEdgeSdk.Analysis.CatalogClientImpl

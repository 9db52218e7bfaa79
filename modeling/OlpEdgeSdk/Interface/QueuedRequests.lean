import Mathlib.Algebra.BigOperators.Group.List.Basic
import Mathlib.Algebra.GroupWithZero.Nat
import OlpEdgeSdk.Model.NetworkRequestPriorityQueue

/-!
# What is in a queue of requests

How often a request is in a queue, of whatever priority, and how the operations of the queue
change that.
-/

set_option autoImplicit false

namespace OlpEdgeSdk.Interface

open OlpEdgeSdk.Model

/-- A sum over a list without duplicates, when one of the summands changes. -/
theorem sum_map_update {A : Type} [DecidableEq A] {l : List A} (hnodup : l.Nodup) {a : A}
    (ha : a ∈ l) (f : A → ℕ) (v : ℕ) :
    (l.map (Function.update f a v)).sum + f a = (l.map f).sum + v := by
  induction l with
  | nil => cases ha
  | cons b l ih =>
    rw [List.nodup_cons] at hnodup
    rw [List.map_cons, List.map_cons, List.sum_cons, List.sum_cons]
    by_cases hba : b = a
    · have hrest : l.map (Function.update f a v) = l.map f := by
        apply List.map_congr_left
        intro c hc
        rw [Function.update_of_ne]
        rintro rfl
        exact hnodup.1 (hba ▸ hc)
      rw [hba, Function.update_self, hrest]
      omega
    · have hmem : a ∈ l := (List.mem_cons.mp ha).resolve_left (Ne.symm hba)
      rw [Function.update_of_ne hba]
      have := ih hnodup.2 hmem
      omega

/-- How often a request is in a queue. -/
def queuedCount (q : NetworkRequestPriorityQueue) (context : RequestContext) : ℕ :=
  ((List.finRange 6).map fun i => (q.requests i).count context).sum

theorem queuedCount_update (q : NetworkRequestPriorityQueue) (i : Priority)
    (contexts : List RequestContext) (context : RequestContext) :
    queuedCount ⟨Function.update q.requests i contexts⟩ context + (q.requests i).count context =
      queuedCount q context + contexts.count context := by
  have hcount : (fun j => (Function.update q.requests i contexts j).count context) =
      Function.update (fun j => (q.requests j).count context) i (contexts.count context) := by
    funext j
    by_cases hj : j = i
    · rw [hj, Function.update_self, Function.update_self]
    · rw [Function.update_of_ne hj, Function.update_of_ne hj]
  rw [queuedCount, hcount]
  exact sum_map_update (List.nodup_finRange 6) (List.mem_finRange i) _ _

@[simp] theorem queuedCount_empty (context : RequestContext) :
    queuedCount .empty context = 0 := by
  simp [queuedCount, NetworkRequestPriorityQueue.empty]

theorem queuedCount_push (q : NetworkRequestPriorityQueue) (context other : RequestContext) :
    queuedCount (q.push context) other =
      queuedCount q other + if context = other then 1 else 0 := by
  have h := queuedCount_update q context.request.priority
    (q.requests context.request.priority ++ [context]) other
  rw [List.count_append, List.count_singleton] at h
  simp only [beq_iff_eq] at h
  rw [NetworkRequestPriorityQueue.push]
  omega

/-- The first class that is not empty gives up its first request. -/
theorem popFrom_eq_some {q q' : NetworkRequestPriorityQueue} {is : List Priority}
    {context : RequestContext} (h : q.popFrom is = some (context, q')) :
    ∃ earlier i later contexts, is = earlier ++ i :: later ∧ (∀ j ∈ earlier, q.requests j = []) ∧
      q.requests i = context :: contexts ∧ q' = ⟨Function.update q.requests i contexts⟩ := by
  induction is with
  | nil => cases h
  | cons i is ih =>
    rw [NetworkRequestPriorityQueue.popFrom] at h
    split at h
    · next hempty =>
      obtain ⟨earlier, j, later, contexts, rfl, hearlier, hj⟩ := ih h
      refine ⟨i :: earlier, j, later, contexts, rfl, ?_, hj⟩
      rw [List.forall_mem_cons]
      exact ⟨hempty, hearlier⟩
    · next contexts hrequests =>
      cases h
      exact ⟨[], i, is, contexts, rfl, by simp, hrequests, rfl⟩

theorem popFrom_eq_none {q : NetworkRequestPriorityQueue} {is : List Priority}
    (h : q.popFrom is = none) : ∀ i ∈ is, q.requests i = [] := by
  induction is with
  | nil => simp
  | cons i is ih =>
    rw [NetworkRequestPriorityQueue.popFrom] at h
    split at h
    · next hempty =>
      rw [List.forall_mem_cons]
      exact ⟨hempty, ih h⟩
    · cases h

theorem queuedCount_pop {q q' : NetworkRequestPriorityQueue} {context : RequestContext}
    (h : q.pop = some (context, q')) (other : RequestContext) :
    queuedCount q other = queuedCount q' other + if context = other then 1 else 0 := by
  obtain ⟨-, i, -, contexts, -, -, hrequests, rfl⟩ := popFrom_eq_some h
  have hupdate := queuedCount_update q i contexts other
  rw [hrequests, List.count_cons] at hupdate
  simp only [beq_iff_eq] at hupdate
  omega

theorem queuedCount_removeIf (q : NetworkRequestPriorityQueue) (f : RequestContext → Bool)
    (context : RequestContext) :
    queuedCount q context =
      (q.removeIf f).1.count context + queuedCount (q.removeIf f).2 context := by
  rw [queuedCount, queuedCount, NetworkRequestPriorityQueue.removeIf, List.count_flatMap,
    ← List.sum_map_add]
  congr 1
  apply List.map_congr_left
  intro i _
  rw [Function.comp_apply, ← List.count_append]
  exact ((List.filter_append_perm f (q.requests i)).count_eq context).symm

theorem mem_removeIf {q : NetworkRequestPriorityQueue} {f : RequestContext → Bool}
    {context : RequestContext} (h : context ∈ (q.removeIf f).1) : f context = true := by
  obtain ⟨i, -, hmem⟩ := List.mem_flatMap.mp h
  exact (List.mem_filter.mp hmem).2

end OlpEdgeSdk.Interface

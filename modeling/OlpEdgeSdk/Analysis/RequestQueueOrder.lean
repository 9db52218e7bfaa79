import OlpEdgeSdk.Base.PriorityClasses
import OlpEdgeSdk.Interface.QueuedRequests

/-!
# The order in which requests leave their queue

The queue keeps one list for each priority. Over every list of calls it behaves as one list of
the requests in the order in which they were pushed, from which `Pop` takes the first one of the
highest priority that is there.
-/

set_option autoImplicit false

namespace OlpEdgeSdk.Analysis.RequestQueue

open OlpEdgeSdk.Base OlpEdgeSdk.Interface OlpEdgeSdk.Model

/-- The operations as calls with answers. -/
def call (q : NetworkRequestPriorityQueue) :
    PriorityCall RequestContext → NetworkRequestPriorityQueue × PriorityAnswer RequestContext
  | .push context => (q.push context, .pushed)
  | .pop =>
    match q.pop with
    | some (context, q) => (q, .popped (some context))
    | none => (q, .popped none)
  | .removeIf f => ((q.removeIf f).2, .removed (q.removeIf f).1)
  | .size => (q, .size q.size)

def priorityOf (context : RequestContext) : Priority := context.request.priority

/-- The queue has these requests, each under its priority. -/
def Holds (q : NetworkRequestPriorityQueue) (held : List RequestContext) : Prop :=
  InClasses priorityOf q.requests held

variable {q : NetworkRequestPriorityQueue} {held : List RequestContext}

/-- `Pop` looks at every priority, from the highest one down. -/
theorem mem_priorities (i : Priority) : i ∈ (List.finRange 6).reverse :=
  List.mem_reverse.mpr (List.mem_finRange i)

theorem mem_earlier {earlier later : List Priority} {i j : Priority}
    (horder : (List.finRange 6).reverse = earlier ++ i :: later) (hlt : i < j) : j ∈ earlier := by
  have hdown : ((List.finRange 6).reverse).Pairwise (fun a b => b < a) := by decide
  rw [horder, List.pairwise_append, List.pairwise_cons] at hdown
  have hj := mem_priorities j
  rw [horder, List.mem_append, List.mem_cons] at hj
  rcases hj with hearlier | rfl | hlater
  · exact hearlier
  · exact absurd hlt (lt_irrefl _)
  · exact absurd hlt (lt_asymm (hdown.2.1.1 j hlater))

theorem holds_pop (h : Holds q held) :
    ∃ held', Serves priorityOf held .pop (call q .pop).2 held' ∧ Holds (call q .pop).1 held' := by
  rw [call]
  cases hpop : q.pop with
  | none =>
    have hempty : held = [] :=
      h.eq_nil fun i => popFrom_eq_none hpop i (mem_priorities i)
    subst hempty
    exact ⟨[], .popNone, h⟩
  | some popped =>
    obtain ⟨context, q'⟩ := popped
    obtain ⟨earlier, i, later, contexts, horder, hearlier, hi, rfl⟩ := popFrom_eq_some hpop
    exact h.pop hi fun j hlt => hearlier j (mem_earlier horder hlt)

theorem holds_removeIf (h : Holds q held) (f : RequestContext → Bool) :
    Serves priorityOf held (.removeIf f) (call q (.removeIf f)).2 (held.filter fun a => !f a) ∧
      Holds (call q (.removeIf f)).1 (held.filter fun a => !f a) := by
  refine ⟨.removeIf ?_, InClasses.removeIf h fun a => !f a⟩
  exact (InClasses.removeIf h f).flatMap_perm (List.nodup_finRange 6) List.mem_finRange

theorem size_eq (h : Holds q held) : q.size = held.length := by
  have hsum : ∀ (is : List Priority) (n : ℕ),
      is.foldl (fun count i => count + (q.requests i).length) n =
        n + (is.flatMap q.requests).length := by
    intro is
    induction is with
    | nil => intro n; rfl
    | cons i is ih =>
      intro n
      rw [List.foldl_cons, ih, List.flatMap_cons, List.length_append]
      omega
  rw [NetworkRequestPriorityQueue.size, hsum, Nat.zero_add]
  exact (InClasses.flatMap_perm h (List.nodup_finRange 6) List.mem_finRange).length_eq

/-- **Every call** is answered as the one list answers it. -/
theorem holds_call (q : NetworkRequestPriorityQueue) (held : List RequestContext)
    (c : PriorityCall RequestContext) (h : Holds q held) :
    ∃ held', Serves priorityOf held c (call q c).2 held' ∧ Holds (call q c).1 held' := by
  cases c with
  | push context => exact ⟨held ++ [context], .push held context, InClasses.push h context⟩
  | pop => exact holds_pop h
  | removeIf f => exact ⟨_, holds_removeIf h f⟩
  | size =>
    refine ⟨held, ?_, h⟩
    rw [call, size_eq h]
    exact .size held

/-- **The queue is a list of requests served by priority.** Every list of calls, from the empty
queue, is answered as that list answers it; the queue holds what is left of it, each request
under its priority; and what was pushed is what was popped, removed or is still held, each time
once.
SOURCE: NetworkRequestPriorityQueue.cpp:26-54, NetworkRequestPriorityQueue.h:63-79 -/
theorem requestQueue_serves (calls : List (PriorityCall RequestContext)) :
    ∃ held, Allows (Serves priorityOf) [] calls (answersOf call .empty calls).2 held ∧
      Holds (answersOf call .empty calls).1 held ∧
      (calls.flatMap PriorityCall.pushes).Perm
        ((answersOf call .empty calls).2.flatMap PriorityAnswer.takes ++ held) := by
  have hstart : Holds .empty [] := inClasses_nil
  obtain ⟨held, hallows, hholds⟩ := allows_of_simulation holds_call hstart calls
  exact ⟨held, hallows, hholds, hallows.balance⟩

end OlpEdgeSdk.Analysis.RequestQueue

import OlpEdgeSdk.Base.Runs

/-!
# First in, first out

A queue with its history: what was put in, what was taken out and what is still waiting. The
field `balance` says that the three agree, so that nothing is taken out twice, out of order or
never put in. Below it, what it means for a system that answers its calls to behave as another
one does.
-/

set_option autoImplicit false

namespace OlpEdgeSdk.Base

/-- A queue and its history. -/
structure Fifo (α : Type) where
  pushed : List α
  popped : List α
  waiting : List α
  balance : pushed = popped ++ waiting

namespace Fifo

variable {α : Type}

/-- The queue that these wait in from the start. -/
def start (waiting : List α) : Fifo α := ⟨waiting, [], waiting, rfl⟩

/-- Put in at the end. -/
def push (f : Fifo α) (a : α) : Fifo α where
  pushed := f.pushed ++ [a]
  popped := f.popped
  waiting := f.waiting ++ [a]
  balance := by rw [f.balance, List.append_assoc]

/-- Take the oldest one out, if there is one. -/
def pop (f : Fifo α) : Fifo α where
  pushed := f.pushed
  popped := f.popped ++ f.waiting.head?.toList
  waiting := f.waiting.tail
  balance := by
    rw [f.balance]
    cases f.waiting <;> simp

@[simp] theorem waiting_start (waiting : List α) : (start waiting).waiting = waiting := rfl

@[simp] theorem waiting_push (f : Fifo α) (a : α) : (f.push a).waiting = f.waiting ++ [a] := rfl

@[simp] theorem waiting_pop (f : Fifo α) : f.pop.waiting = f.waiting.tail := rfl

end Fifo

section Answers

variable {State Abstract Call Answer : Type}

/-- The answers to a list of calls, and the state after them, if every call returns. -/
def answersFrom (call : State → Call → Option (State × Answer)) :
    State → List Call → Option (State × List Answer)
  | s, [] => some (s, [])
  | s, c :: calls => do
    let (s, answer) ← call s c
    let (s, answers) ← answersFrom call s calls
    return (s, answer :: answers)

/-- The answers of a system all of whose calls return. -/
def answersOf (call : Abstract → Call → Abstract × Answer) :
    Abstract → List Call → Abstract × List Answer
  | s, [] => (s, [])
  | s, c :: calls =>
    let (s, answer) := call s c
    let (s, answers) := answersOf call s calls
    (s, answer :: answers)

/-- **The simulation rule.** If related states answer every call alike and end in related
states, under a condition on the call, then so it is with every list of calls along which the
condition holds. -/
theorem answersFrom_of_simulation {call : State → Call → Option (State × Answer)}
    {spec : Abstract → Call → Abstract × Answer} {Related : State → Abstract → Prop}
    {P : State → Call → Prop}
    (hcall : ∀ s a c, Related s a → P s c →
      ∃ s', call s c = some (s', (spec a c).2) ∧ Related s' (spec a c).1)
    {s : State} {a : Abstract} {calls : List Call} (hrelated : Related s a)
    (hP : Along (fun s c => (call s c).map Prod.fst) P s calls) :
    ∃ s', answersFrom call s calls = some (s', (answersOf spec a calls).2) ∧
      Related s' (answersOf spec a calls).1 := by
  induction calls generalizing s a with
  | nil => exact ⟨s, rfl, hrelated⟩
  | cons c calls ih =>
    obtain ⟨m, hm, hrelatedM⟩ := hcall s a c hrelated hP.1
    obtain ⟨s', hs', hrelated'⟩ := ih hrelatedM (hP.2 m (by simp [hm]))
    refine ⟨s', ?_, hrelated'⟩
    simp [answersFrom, hm, hs', answersOf]

/-- A specification allows these answers to these calls, from one state to another. -/
inductive Allows (spec : Abstract → Call → Answer → Abstract → Prop) :
    Abstract → List Call → List Answer → Abstract → Prop where
  | nil (a : Abstract) : Allows spec a [] [] a
  | cons {a m b : Abstract} {c : Call} {answer : Answer} {calls : List Call}
      {answers : List Answer} (hcall : spec a c answer m) (hcalls : Allows spec m calls answers b) :
      Allows spec a (c :: calls) (answer :: answers) b

/-- **The refinement rule.** If from related states every answer is one that the specification
allows, with related states after it, then so are all the answers to a list of calls. -/
theorem allows_of_simulation {call : State → Call → State × Answer}
    {spec : Abstract → Call → Answer → Abstract → Prop} {Related : State → Abstract → Prop}
    (hcall : ∀ s a c, Related s a →
      ∃ a', spec a c (call s c).2 a' ∧ Related (call s c).1 a')
    {s : State} {a : Abstract} (hrelated : Related s a) (calls : List Call) :
    ∃ a', Allows spec a calls (answersOf call s calls).2 a' ∧
      Related (answersOf call s calls).1 a' := by
  induction calls generalizing s a with
  | nil => exact ⟨a, .nil a, hrelated⟩
  | cons c calls ih =>
    obtain ⟨m, hm, hrelatedM⟩ := hcall s a c hrelated
    obtain ⟨a', ha', hrelated'⟩ := ih hrelatedM
    exact ⟨a', .cons hm ha', hrelated'⟩

end Answers

end OlpEdgeSdk.Base

import Mathlib.Data.Nat.Basic
import OlpEdgeSdk.Base.Runs

/-!
# The cancellation context

A `CancellationContext` holds the token of the sub-operation under way and whether it was
cancelled. `ExecuteOrCancelled` and `CancelOperation` hold a recursive mutex for their whole
bodies, so at any time one thread is inside the context, at some depth: an `execute_fn`, a
`cancel_fn` or the `cancel` of a token may call into the context again. A call of another
thread waits until the depth is zero. `frames` is that depth; what an inner call does happens
before the outer one goes on. A context that was moved from, which ignores every call, is left
out.

SOURCE: CancellationContext.inl, CancellationContext.h
-/

set_option autoImplicit false

namespace OlpEdgeSdk.Model

open OlpEdgeSdk.Base

/-- `none` is the default token, whose `cancel` does nothing.
SOURCE: CancellationContext.h:74-82 -/
structure CancellationContext (Token : Type) where
  subOperationCancelToken : Option Token
  isCancelled : Bool
deriving DecidableEq, Repr

namespace CancellationContext

variable {Token : Type}

/-- SOURCE: CancellationContext.inl:25-26 -/
def new : CancellationContext Token := ⟨none, false⟩

/-- What `ExecuteOrCancelled` goes on to do. -/
inductive Branch where
  | cancelFn
  | executeFn
  | nothing
deriving DecidableEq, Repr

/-- The branch `ExecuteOrCancelled` takes: a context that was cancelled still runs the
`execute_fn` of a call without a `cancel_fn`.
SOURCE: CancellationContext.inl:37-46 -/
def branch (c : CancellationContext Token) (hasExecuteFn hasCancelFn : Bool) : Branch :=
  if c.isCancelled && hasCancelFn then .cancelFn
  else if hasExecuteFn then .executeFn
  else .nothing

/-- What an `execute_fn` returns replaces the token, whenever it returns.
SOURCE: CancellationContext.inl:44-46 -/
def assign (c : CancellationContext Token) (token : Option Token) : CancellationContext Token :=
  { c with subOperationCancelToken := token }

/-- The rest of `CancelOperation`, once the `cancel` of the token has returned.
SOURCE: CancellationContext.inl:60-61 -/
def finishCancel (_ : CancellationContext Token) : CancellationContext Token := ⟨none, true⟩

/-! ## Calls -/

/-- What the thread inside the context is in the middle of. An `execute_fn` is known by the
number of those that were started before it, and so is the token it returns. -/
inductive Frame where
  | executing (id : ℕ)
  | notifying
  | cancelling
deriving DecidableEq, Repr

/-- The context, the calls under way, innermost first, how many `execute_fn`s were started, and
the tokens `CancelOperation` has cancelled. -/
structure State where
  context : CancellationContext ℕ
  frames : List Frame
  started : ℕ
  cancelled : List (Option ℕ)
deriving DecidableEq, Repr

/-- What can happen next: a call into the context, or the return of the innermost function it
has called. -/
inductive Event where
  | executeOrCancelled (hasExecuteFn hasCancelFn : Bool)
  | executeFnReturns
  | cancelFnReturns
  | cancelOperation
  | cancelReturns
deriving DecidableEq, Repr

def initial : State := ⟨new, [], 0, []⟩

/-- SOURCE: CancellationContext.inl:28-62 -/
def step (s : State) : Event → Option State
  | .executeOrCancelled hasExecuteFn hasCancelFn =>
    match s.context.branch hasExecuteFn hasCancelFn with
    | .cancelFn => some { s with frames := .notifying :: s.frames }
    | .executeFn =>
      some { s with frames := .executing s.started :: s.frames, started := s.started + 1 }
    | .nothing => some s
  | .executeFnReturns =>
    match s.frames with
    | .executing id :: frames =>
      some { s with context := s.context.assign (some id), frames := frames }
    | _ => none
  | .cancelFnReturns =>
    match s.frames with
    | .notifying :: frames => some { s with frames := frames }
    | _ => none
  | .cancelOperation =>
    if s.context.isCancelled then some s
    else
      some { s with
        frames := .cancelling :: s.frames,
        cancelled := s.cancelled ++ [s.context.subOperationCancelToken] }
  | .cancelReturns =>
    match s.frames with
    | .cancelling :: frames =>
      some { s with context := s.context.finishCancel, frames := frames }
    | _ => none

/-- The `execute_fn` that was started last. -/
def newest (s : State) : Option ℕ := if s.started = 0 then none else some (s.started - 1)

end CancellationContext

end OlpEdgeSdk.Model

import Mathlib.Data.Nat.Basic
import OlpEdgeSdk.Base.Runs

/-!
# The thread pool

A `ThreadPoolTaskScheduler` has a `SyncQueue` and threads that pull tasks out of it and call
them. `Push`, `Pull` and `Close` hold the mutex of the queue, but a push calls `notify_one` and
a close calls `notify_all` after they have given it back, so that anything may happen in between:
a step is one locked part, one notification, one call or return of a task, or one `join`. A
thread that waits on the condition variable may also wake for no reason. The names the threads
are given are left out.

SOURCE: SyncQueue.inl, TaskScheduler.h, ThreadPoolTaskScheduler.cpp
-/

set_option autoImplicit false

namespace OlpEdgeSdk.Model

/-- SOURCE: SyncQueue.h:88-97 -/
structure SyncQueue (α : Type) where
  queue : List α
  closed : Bool
deriving DecidableEq, Repr

namespace SyncQueue

variable {α : Type}

/-- SOURCE: SyncQueue.inl:25-26 -/
def new : SyncQueue α := ⟨[], false⟩

/-- SOURCE: SyncQueue.inl:33-37 -/
def empty (q : SyncQueue α) : Bool := q.queue.isEmpty

/-- The locked part of `Close`.
SOURCE: SyncQueue.inl:41-45 -/
def close (_ : SyncQueue α) : SyncQueue α := ⟨[], true⟩

/-- What the predicate of the wait finds, and what `Pull` does then. -/
inductive Pulled (α : Type) where
  | waits
  | closed
  | element (a : α)
deriving DecidableEq, Repr

/-- What `Pull` does each time it holds the mutex.
SOURCE: SyncQueue.inl:50-61 -/
def pull (q : SyncQueue α) : Pulled α × SyncQueue α :=
  if q.closed then (.closed, q)
  else
    match q.queue with
    | [] => (.waits, q)
    | a :: queue => (.element a, { q with queue := queue })

/-- The locked part of `Push`; a closed queue takes nothing, and nobody is notified.
SOURCE: SyncQueue.inl:64-91 -/
def push (q : SyncQueue α) (a : α) : Option (SyncQueue α) :=
  if q.closed then none
  else some { q with queue := q.queue ++ [a] }

end SyncQueue

/-- A callable, known by the number of the call of `ScheduleTask` that brought it. A cancellable
one asks the context that this call has made and returned, before it is called.
SOURCE: TaskScheduler.h:48, 67-76 -/
structure Task where
  id : ℕ
  cancellable : Bool
deriving DecidableEq, Repr

/-- Where a thread of the pool is: on its way to the mutex in `Pull`, in the wait, with a task
it has pulled, in the call of one, or gone.
SOURCE: ThreadPoolTaskScheduler.cpp:78-82 -/
inductive Worker where
  | pulling
  | asleep
  | holding (task : Task)
  | running (task : Task)
  | returned
deriving DecidableEq, Repr

/-- A notification ends the wait. -/
def Worker.wake : Worker → Worker
  | .asleep => .pulling
  | worker => worker

/-- How far the destructor is: past the locked part of `Close`, or past `notify_all` and that
many calls of `join`.
SOURCE: ThreadPoolTaskScheduler.cpp:89-95 -/
inductive Destructor where
  | notStarted
  | notifying
  | joining (joined : ℕ)
deriving DecidableEq, Repr

/-- The pool, the calls of `Push` that have not called `notify_one` yet, the contexts that were
cancelled, and what has happened to the tasks. -/
structure ThreadPoolTaskScheduler where
  syncQueue : SyncQueue Task
  workers : List Worker
  notifyOnes : ℕ
  destructor : Destructor
  scheduled : ℕ
  cancelled : List ℕ
  accepted : List Task
  pulled : List Task
  executed : List Task
  skipped : List Task
deriving DecidableEq, Repr

namespace ThreadPoolTaskScheduler

/-- SOURCE: ThreadPoolTaskScheduler.cpp:68-87 -/
def new (threadCount : ℕ) : ThreadPoolTaskScheduler where
  syncQueue := .new
  workers := List.replicate threadCount .pulling
  notifyOnes := 0
  destructor := .notStarted
  scheduled := 0
  cancelled := []
  accepted := []
  pulled := []
  executed := []
  skipped := []

/-- SOURCE: ThreadPoolTaskScheduler.cpp:97-99 -/
def enqueueTask (p : ThreadPoolTaskScheduler) (task : Task) : ThreadPoolTaskScheduler :=
  match p.syncQueue.push task with
  | some syncQueue =>
    { p with
      syncQueue := syncQueue,
      notifyOnes := p.notifyOnes + 1,
      accepted := p.accepted ++ [task] }
  | none => p

/-- SOURCE: TaskScheduler.h:48, 67-76 -/
def scheduleTask (p : ThreadPoolTaskScheduler) (cancellable : Bool) : ThreadPoolTaskScheduler :=
  { p with scheduled := p.scheduled + 1 }.enqueueTask ⟨p.scheduled, cancellable⟩

/-- A thread in `Pull` gets the mutex.
SOURCE: ThreadPoolTaskScheduler.cpp:79-80 -/
def pulls (p : ThreadPoolTaskScheduler) (i : ℕ) : ThreadPoolTaskScheduler :=
  match p.syncQueue.pull with
  | (.waits, _) => { p with workers := p.workers.set i .asleep }
  | (.closed, _) => { p with workers := p.workers.set i .returned }
  | (.element task, syncQueue) =>
    { p with
      syncQueue := syncQueue,
      workers := p.workers.set i (.holding task),
      pulled := p.pulled ++ [task] }

/-- A thread calls the task it holds; one whose context is cancelled returns at once.
SOURCE: ThreadPoolTaskScheduler.cpp:81, TaskScheduler.h:69-73 -/
def callTask (p : ThreadPoolTaskScheduler) (i : ℕ) (task : Task) : ThreadPoolTaskScheduler :=
  if task.cancellable && p.cancelled.contains task.id then
    { p with workers := p.workers.set i .pulling, skipped := p.skipped ++ [task] }
  else { p with workers := p.workers.set i (.running task), executed := p.executed ++ [task] }

/-- The destructor has joined every thread. -/
def destroyed (p : ThreadPoolTaskScheduler) : Bool :=
  p.destructor = .joining p.workers.length

/-- What can happen next; `notifyOne none` finds no thread that waits. -/
inductive Event where
  | scheduleTask (cancellable : Bool)
  | notifyOne (worker : Option ℕ)
  | lockMutex (worker : ℕ)
  | wakeSpuriously (worker : ℕ)
  | callTask (worker : ℕ)
  | taskReturns (worker : ℕ)
  | cancelOperation (id : ℕ)
  | close
  | notifyAll
  | join
deriving DecidableEq, Repr

/-- SOURCE: SyncQueue.inl:39-91, ThreadPoolTaskScheduler.cpp:68-99 -/
def step (p : ThreadPoolTaskScheduler) : Event → Option ThreadPoolTaskScheduler
  | .scheduleTask cancellable =>
    if p.destroyed then none else some (p.scheduleTask cancellable)
  | .notifyOne none =>
    if p.notifyOnes = 0 ∨ .asleep ∈ p.workers then none
    else some { p with notifyOnes := p.notifyOnes - 1 }
  | .notifyOne (some i) =>
    if p.notifyOnes ≠ 0 ∧ p.workers[i]? = some .asleep then
      some { p with notifyOnes := p.notifyOnes - 1, workers := p.workers.set i .pulling }
    else none
  | .lockMutex i =>
    if p.workers[i]? = some .pulling then some (p.pulls i) else none
  | .wakeSpuriously i =>
    if p.workers[i]? = some .asleep then some { p with workers := p.workers.set i .pulling }
    else none
  | .callTask i =>
    match p.workers[i]? with
    | some (.holding task) => some (p.callTask i task)
    | _ => none
  | .taskReturns i =>
    match p.workers[i]? with
    | some (.running _) => some { p with workers := p.workers.set i .pulling }
    | _ => none
  | .cancelOperation id =>
    if id < p.scheduled then some { p with cancelled := id :: p.cancelled } else none
  | .close =>
    match p.destructor with
    | .notStarted => some { p with syncQueue := p.syncQueue.close, destructor := .notifying }
    | _ => none
  | .notifyAll =>
    match p.destructor with
    | .notifying => some { p with workers := p.workers.map .wake, destructor := .joining 0 }
    | _ => none
  | .join =>
    match p.destructor with
    | .joining joined =>
      if p.workers[joined]? = some .returned then
        some { p with destructor := .joining (joined + 1) }
      else none
    | _ => none

end ThreadPoolTaskScheduler

end OlpEdgeSdk.Model

import Mathlib.Data.Int.Order.Basic
import OlpEdgeSdk.Base.BinarySearch
import OlpEdgeSdk.Base.VectorRanges

/-!
# The list of cancellation tokens

`CancellationTokenList`, a vector of ids and tokens behind a mutex, in the order of the ids.
`CancelAll` takes the mutex to copy the ids and to filter the vector; while it goes through the
ids, and between these parts, the callbacks of the tokens and other threads can call
`RemoveTask`.

SOURCE: olp-cpp-sdk-dataservice-write/src/CancellationTokenList.cpp
-/

set_option autoImplicit false

namespace OlpEdgeSdk.Model

open OlpEdgeSdk.Base

/-- SOURCE: CancellationTokenList.h:42-43 -/
structure CancellationTokenList (Token : Type*) where
  tokenList : List (ℤ × Token)

namespace CancellationTokenList

variable {Token : Type*}

/-- SOURCE: CancellationTokenList.cpp:42-48 -/
def addTask (tasks : CancellationTokenList Token) (id : ℤ) (token : Token) :
    CancellationTokenList Token :=
  ⟨insertAt tasks.tokenList (upperBound Prod.fst tasks.tokenList id) (id, token)⟩

/-- SOURCE: CancellationTokenList.cpp:50-56 -/
def removeTask (tasks : CancellationTokenList Token) (id : ℤ) : CancellationTokenList Token :=
  let it := lowerBound Prod.fst tasks.tokenList id
  match tasks.tokenList[it]? with
  | none => tasks
  | some t =>
    if t.1 ≠ id then tasks
    else
      let moved := rotate tasks.tokenList it (it + 1) tasks.tokenList.length
      ⟨eraseAt moved.1 moved.2⟩

/-- SOURCE: CancellationTokenList.cpp:86-93 -/
def getTaskIdList (tasks : CancellationTokenList Token) : List ℤ := tasks.tokenList.map Prod.fst

/-- A call of `CancelAll` on its way: the list, the tokens that it has cancelled, and the steps
that it has taken. -/
structure CancelRun (Token : Type*) where
  tasks : CancellationTokenList Token
  cancelled : List Token
  steps : ℕ

variable (removals : ℕ → List ℤ)

/-- What `RemoveTask` is called with before a step of `CancelAll`, by others and by the callbacks
of the tokens cancelled. -/
def removed (run : CancelRun Token) : CancelRun Token where
  tasks := (removals run.steps).foldl removeTask run.tasks
  cancelled := run.cancelled
  steps := run.steps + 1

/-- One id of the list copied is looked up, and its token cancelled.
SOURCE: CancellationTokenList.cpp:64-67 -/
def cancelTask (run : CancelRun Token) (id : ℤ) : CancelRun Token :=
  let run := removed removals run
  let it := lowerBound Prod.fst run.tasks.tokenList id
  match run.tasks.tokenList[it]? with
  | none => run
  | some t =>
    if t.1 ≠ id then run else { run with cancelled := run.cancelled ++ [t.2] }

/-- Whether an id is in the list copied.
SOURCE: CancellationTokenList.cpp:77-79 -/
def isListed (idList : List ℤ) (t : ℤ × Token) : Bool :=
  match idList[lowerBound (fun id => id) idList t.1]? with
  | none => false
  | some id => t.1 = id

/-- The entries of the ids copied are erased.
SOURCE: CancellationTokenList.cpp:71-82 -/
def eraseListed (idList : List ℤ) (tasks : CancellationTokenList Token) :
    CancellationTokenList Token :=
  let kept := removeIf (isListed idList) tasks.tokenList
  ⟨eraseRange kept.1 kept.2 tasks.tokenList.length⟩

/-- `CancelAll`, for a number of rounds.
SOURCE: CancellationTokenList.cpp:58-84 -/
def cancelAll : ℕ → CancelRun Token → Option (CancelRun Token)
  | 0, _ => none
  | rounds + 1, run =>
    let run := removed removals run
    let idList := getTaskIdList run.tasks
    if idList.isEmpty then some run
    else
      let run := removed removals (idList.foldl (cancelTask removals) run)
      cancelAll rounds { run with tasks := eraseListed idList run.tasks }

end CancellationTokenList

end OlpEdgeSdk.Model

import OlpEdgeSdk.Base.VectorRanges

/-!
# The thread-safe queue

`ThreadSafeQueue`, a vector behind a mutex. Every function holds the mutex for its whole body.

SOURCE: olp-cpp-sdk-dataservice-write/src/ThreadSafeQueue.cpp
-/

set_option autoImplicit false

namespace OlpEdgeSdk.Model

open OlpEdgeSdk.Base

/-- SOURCE: ThreadSafeQueue.h:85-87 -/
structure ThreadSafeQueue (T : Type*) where
  vec : List T

namespace ThreadSafeQueue

variable {T : Type*}

/-- `erase(rotate(begin, begin + n, end), end)`, as the functions below have it. -/
def eraseRotated (vec : List T) (n : ℕ) : List T :=
  let moved := rotate vec 0 n vec.length
  eraseRange moved.1 moved.2 vec.length

/-- `push` of a copy, with a bound on the size.
SOURCE: ThreadSafeQueue.cpp:75-95 -/
def pushCopy (q : ThreadSafeQueue T) (val : T) (maxSize : ℕ) (bOverwrite : Bool) :
    ThreadSafeQueue T :=
  if maxSize = 0 then ⟨[]⟩
  else if maxSize ≤ q.vec.length then
    if bOverwrite then ⟨eraseRotated q.vec (q.vec.length - maxSize + 1) ++ [val]⟩
    else q
  else ⟨q.vec ++ [val]⟩

/-- `push` of a value that is moved from, with a bound on the size.
SOURCE: ThreadSafeQueue.cpp:103-125 -/
def pushMove (q : ThreadSafeQueue T) (val : T) (maxSize : ℕ) (bOverwrite : Bool) :
    ThreadSafeQueue T :=
  if maxSize = 0 then if bOverwrite then ⟨[]⟩ else q
  else if maxSize ≤ q.vec.length then
    if bOverwrite then ⟨eraseRotated q.vec (q.vec.length - maxSize + 1) ++ [val]⟩
    else q
  else ⟨q.vec ++ [val]⟩

/-- `pop` of one element.
SOURCE: ThreadSafeQueue.cpp:127-135 -/
def pop (q : ThreadSafeQueue T) : ThreadSafeQueue T :=
  if q.vec.isEmpty then q else ⟨eraseRotated q.vec 1⟩

/-- `pop` of a number of elements, and whether they were there.
SOURCE: ThreadSafeQueue.cpp:137-147 -/
def popNum (q : ThreadSafeQueue T) (num : ℕ) : ThreadSafeQueue T × Bool :=
  if num ≠ 0 ∧ num ≤ q.vec.length then (⟨q.vec.drop num⟩, true) else (q, false)

end ThreadSafeQueue

end OlpEdgeSdk.Model

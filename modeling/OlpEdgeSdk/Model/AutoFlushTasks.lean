import OlpEdgeSdk.Base.SortedMap

/-!
# The background flushes of an enabled controller

`AddBackgroundFlushTask` spawns a thread that takes an id in the collection of background tasks,
starts a flush, and puts the token of the flush in the cancel token map. The flush runs in a
thread of its own; its callback releases the task and removes the token, and can do so before
the token is in the map. `Disable` cancels the tokens of the map, and its future is set once the
collection is found empty.

A flush is named by its place in the order in which the threads were spawned. The ids are
unbounded here; all collections take theirs from one counter, so that other tasks may come
between. `AutoFlushController::Disable` takes the controller out before it calls its `Disable`,
which therefore runs once.

SOURCE: AutoFlushController.cpp, BackgroundTaskCollection.cpp
-/

set_option autoImplicit false

namespace OlpEdgeSdk.Model

open OlpEdgeSdk.Base

namespace AutoFlushController

/-- How far the callback of a flush is: the flush is under way; it is over and its callback runs;
the task is released; the token is removed, after which the callback only tells the listener. -/
inductive CallbackPhase where
  | pending
  | called
  | released
  | returned
deriving DecidableEq, Repr

/-- The token of a flush: with the thread that started the flush, or put in the map, and perhaps
cancelled since. -/
inductive TokenPhase where
  | inHand
  | registered (cancelled : Bool)
deriving DecidableEq, Repr

/-- A background flush: its thread is spawned; it has its id; the flush is started. -/
inductive BackgroundFlush where
  | spawned
  | added (id : ℕ)
  | flushing (id : ℕ) (token : TokenPhase) (callback : CallbackPhase)
deriving DecidableEq, Repr

namespace BackgroundFlush

def id? : BackgroundFlush → Option ℕ
  | .spawned => none
  | .added id | .flushing id _ _ => some id

/-- The flush itself is over. -/
def IsFinished : BackgroundFlush → Prop
  | .flushing _ _ callback => callback ≠ .pending
  | _ => False

/-- The token of the flush was cancelled. -/
def IsCancelled : BackgroundFlush → Prop
  | .flushing _ token _ => token = .registered true
  | _ => False

/-- The `cancel` of the token. -/
def cancel : BackgroundFlush → BackgroundFlush
  | .flushing id (.registered _) callback => .flushing id (.registered true) callback
  | f => f

@[simp] theorem cancel_cancel (f : BackgroundFlush) : f.cancel.cancel = f.cancel := by
  cases f with
  | flushing id token callback => cases token <;> rfl
  | _ => rfl

end BackgroundFlush

/-- Where `Disable` is, with the number of flushes that were started before it. -/
inductive DisablePhase where
  | notCalled
  | cancelled (startedBefore : ℕ)
  | waiting (startedBefore : ℕ)
  | ready (startedBefore : ℕ)
deriving DecidableEq, Repr

def DisablePhase.startedBefore : DisablePhase → ℕ
  | .notCalled => 0
  | .cancelled n | .waiting n | .ready n => n

/-- The controller and its background flushes; a token of the map is the flush it cancels. -/
structure Controller where
  nextId : ℕ
  backgroundTasksIds : List ℕ
  cancelTokenMap : SortedMap ℕ ℕ
  isCancelled : Bool
  flushes : List BackgroundFlush
  disable : DisablePhase

def Controller.start (nextId : ℕ) : Controller :=
  ⟨nextId, [], SortedMap.empty, false, [], .notCalled⟩

/-- What the threads do, in steps that no other thread can come between. -/
inductive ControllerEvent where
  | addBackgroundFlushTask (clientLocked : Bool)
  | addTask (i : ℕ)
  | otherTask
  | flush (i : ℕ)
  | addCancelToken (i : ℕ)
  | endFlush (i : ℕ)
  | releaseTask (i : ℕ)
  | removeCancelToken (i : ℕ)
  | cancel
  | waitAsync
  | completed
deriving DecidableEq, Repr

/-- `insert` of a `std::map`: a key that is there keeps its value. -/
def insertToken (cancelTokenMap : SortedMap ℕ ℕ) (id token : ℕ) : SortedMap ℕ ℕ :=
  if (cancelTokenMap.find id).isSome then cancelTokenMap else cancelTokenMap.insert id token

/-- The loop of `Cancel` over the map.
SOURCE: AutoFlushController.cpp:191-193 -/
def cancelTokens (entries : List (ℕ × ℕ)) (flushes : List BackgroundFlush) :
    List BackgroundFlush :=
  entries.foldl (fun flushes e => flushes.modify e.2 BackgroundFlush.cancel) flushes

/-- SOURCE: AutoFlushController.cpp:96-117, 189-217, 290-308; BackgroundTaskCollection.cpp:30-61 -/
def controllerStep (s : Controller) : ControllerEvent → Option Controller
  | .addBackgroundFlushTask clientLocked =>
    if clientLocked then some { s with flushes := s.flushes ++ [.spawned] } else some s
  | .addTask i =>
    match s.flushes[i]? with
    | some .spawned => some { s with
        nextId := s.nextId + 1,
        backgroundTasksIds := s.backgroundTasksIds ++ [s.nextId],
        flushes := s.flushes.set i (.added s.nextId) }
    | _ => none
  | .otherTask => some { s with nextId := s.nextId + 1 }
  | .flush i =>
    match s.flushes[i]? with
    | some (.added id) => some { s with flushes := s.flushes.set i (.flushing id .inHand .pending) }
    | _ => none
  | .addCancelToken i =>
    match s.flushes[i]? with
    | some (.flushing id .inHand callback) => some { s with
        cancelTokenMap := insertToken s.cancelTokenMap id i,
        flushes := s.flushes.set i (.flushing id (.registered false) callback) }
    | _ => none
  | .endFlush i =>
    match s.flushes[i]? with
    | some (.flushing id token .pending) =>
      some { s with flushes := s.flushes.set i (.flushing id token .called) }
    | _ => none
  | .releaseTask i =>
    match s.flushes[i]? with
    | some (.flushing id token .called) => some { s with
        backgroundTasksIds := s.backgroundTasksIds.filter (· ≠ id),
        flushes := s.flushes.set i (.flushing id token .released) }
    | _ => none
  | .removeCancelToken i =>
    match s.flushes[i]? with
    | some (.flushing id token .released) => some { s with
        cancelTokenMap := s.cancelTokenMap.erase id,
        flushes := s.flushes.set i (.flushing id token .returned) }
    | _ => none
  | .cancel =>
    match s.disable with
    | .notCalled => some { s with
        flushes := cancelTokens s.cancelTokenMap.entries s.flushes,
        isCancelled := true,
        disable := .cancelled s.flushes.length }
    | _ => none
  | .waitAsync =>
    match s.disable with
    | .cancelled n => some { s with disable := .waiting n }
    | _ => none
  | .completed =>
    match s.disable with
    | .waiting n => if s.backgroundTasksIds = [] then some { s with disable := .ready n } else none
    | _ => none

end AutoFlushController

end OlpEdgeSdk.Model

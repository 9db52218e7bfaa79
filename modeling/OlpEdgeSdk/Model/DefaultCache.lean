import OlpEdgeSdk.Base.Decimal
import OlpEdgeSdk.Model.DiskCache
import OlpEdgeSdk.Model.InMemoryCache

/-!
# The two tiers together

`DefaultCache` writes to the memory tier and then to the disk tier, and reads the disk tier
when the memory tier has nothing. Every function holds the lock for its whole body.

The disk tier holds texts. What the memory tier holds is a `boost::any` of a shared byte
vector or of some other type; `any_cast` to the vector fails on the latter. Bytes are
characters, so the vector and the string of the same bytes are the same list.

SOURCE: DefaultCache.cpp, DefaultCache.h
-/

set_option autoImplicit false

namespace OlpEdgeSdk.Model

open OlpEdgeSdk.Base

/-- The exceptions that can leave a function of the cache. -/
inductive Fault where
  | badAnyCast
  | invalidArgument
  | outOfRange
deriving DecidableEq, Repr

/-- What a non-empty `boost::any` holds. -/
inductive Held (Obj : Type) where
  | data (bytes : List Char)
  | object (value : Obj)
deriving DecidableEq, Repr

/-- `std::stol`. -/
def stol (text : List Char) : Except Fault ℤ :=
  match readDecimal text with
  | none => .error .invalidArgument
  | some n => if -timeMax - 1 ≤ n ∧ n ≤ timeMax then .ok n else .error .outOfRange

/-- SOURCE: DefaultCache.cpp:29 -/
def createExpiryKey (key : List Char) : List Char := key ++ "::expiry".toList

/-- The seconds an item on disk has left.
SOURCE: DefaultCache.cpp:31-42 -/
def getRemainingExpiryTime (key : List Char) (disk : DiskCache) (clock : Clock) :
    Except Fault ℤ × Clock :=
  match disk.get (createExpiryKey key) with
  | none => (.ok timeMax, clock)
  | some expiryValue =>
    match stol expiryValue with
    | .error fault => (.error fault, clock)
    | .ok expiry => (.ok (expiry - clock.now), clock.rest)

/-- SOURCE: DefaultCache.cpp:44-48 -/
def purgeDiskItem (key : List Char) (disk : DiskCache) : DiskCache :=
  ((disk.remove key).1.remove (createExpiryKey key)).1

/-- SOURCE: DefaultCache.cpp:50-57 -/
def storeExpiry (key : List Char) (disk : DiskCache) (expiry : ℤ) (clock : Clock) :
    DiskCache × Bool × Clock :=
  let (disk, ok) := disk.put (createExpiryKey key) (decimal (expiry + clock.now))
  (disk, ok, clock.rest)

/-- The memory tier as `DefaultCache` sets it up.
SOURCE: DefaultCache.cpp:280-282 -/
abbrev MemoryTier (Obj : Type) : Type := InMemoryCache (Held Obj) presetModelSizeCacheCost

/-- SOURCE: DefaultCache.h:131-134 -/
structure DefaultCache (Obj : Type) where
  isOpen : Bool
  memoryCache : Option (MemoryTier Obj)
  diskCache : Option DiskCache

namespace DefaultCache

variable {Obj : Type}

/-- The memory half of `Put`: without a memory tier it succeeds. -/
def putMemory (c : DefaultCache Obj) (clock : Clock) (key : List Char)
    (value : Option (Held Obj)) (expiry : ℤ) (size : ℕ) : DefaultCache Obj × Bool × Clock :=
  match c.memoryCache with
  | none => (c, true, clock)
  | some memory =>
    let (memory, ok, clock) := memory.put clock key value expiry (UInt64.ofNat size)
    ({ c with memoryCache := some memory }, ok, clock)

/-- The disk half of `Put`: the deadline, if the item expires, and then the value. -/
def putDisk (c : DefaultCache Obj) (clock : Clock) (key encoded : List Char) (expiry : ℤ) :
    DefaultCache Obj × Bool × Clock :=
  match c.diskCache with
  | none => (c, true, clock)
  | some disk =>
    if expiry < timeMax then
      let (disk, ok, clock) := storeExpiry key disk expiry clock
      if ok then
        let (disk, ok) := disk.put key encoded
        ({ c with diskCache := some disk }, ok, clock)
      else ({ c with diskCache := some disk }, false, clock)
    else
      let (disk, ok) := disk.put key encoded
      ({ c with diskCache := some disk }, ok, clock)

/-- The body the two overloads of `Put` share: a failure of the memory tier ends it.
SOURCE: DefaultCache.cpp:112-136, 138-166 -/
def putEncoded (c : DefaultCache Obj) (clock : Clock) (key : List Char)
    (value : Option (Held Obj)) (encoded : List Char) (expiry : ℤ) :
    DefaultCache Obj × Bool × Clock :=
  if c.isOpen then
    let (c, ok, clock) := c.putMemory clock key value expiry encoded.length
    if ok then c.putDisk clock key encoded expiry else (c, false, clock)
  else (c, false, clock)

/-- `Put` of any value, with the text its encoder returns.
SOURCE: DefaultCache.cpp:112-136 -/
def put (c : DefaultCache Obj) (clock : Clock) (key : List Char) (value : Option (Held Obj))
    (encoded : List Char) (expiry : ℤ) : DefaultCache Obj × Bool × Clock :=
  c.putEncoded clock key value encoded expiry

/-- `Put` of a byte vector.
SOURCE: DefaultCache.cpp:138-166 -/
def putData (c : DefaultCache Obj) (clock : Clock) (key : List Char) (value : List Char)
    (expiry : ℤ) : DefaultCache Obj × Bool × Clock :=
  c.putEncoded clock key (some (.data value)) value expiry

/-- The memory half of `Get`: without a memory tier nothing is found. -/
def getMemory (c : DefaultCache Obj) (clock : Clock) (key : List Char) :
    DefaultCache Obj × Option (Held Obj) × Clock :=
  match c.memoryCache with
  | none => (c, none, clock)
  | some memory =>
    let (memory, value, clock) := memory.get clock key
    ({ c with memoryCache := some memory }, value, clock)

/-- The disk half of `Get`: an expired item is purged; what is found is decoded and put in
the memory tier with the time it has left, whether or not it fits there.
SOURCE: DefaultCache.cpp:181-196, 217-233 -/
def getDisk (c : DefaultCache Obj) (clock : Clock) (key : List Char)
    (decoder : List Char → Option (Held Obj)) :
    DefaultCache Obj × Except Fault (Option (Held Obj)) × Clock :=
  match c.diskCache with
  | none => (c, .ok none, clock)
  | some disk =>
    match getRemainingExpiryTime key disk clock with
    | (.error fault, clock) => (c, .error fault, clock)
    | (.ok expiry, clock) =>
      if expiry ≤ 0 then ({ c with diskCache := some (purgeDiskItem key disk) }, .ok none, clock)
      else
        match disk.get key with
        | none => (c, .ok none, clock)
        | some value =>
          let (c, _, clock) := c.putMemory clock key (decoder value) expiry value.length
          (c, .ok (decoder value), clock)

/-- `Get` with a decoder.
SOURCE: DefaultCache.cpp:168-199 -/
def get (c : DefaultCache Obj) (clock : Clock) (key : List Char)
    (decoder : List Char → Option (Held Obj)) :
    DefaultCache Obj × Except Fault (Option (Held Obj)) × Clock :=
  if c.isOpen then
    match c.getMemory clock key with
    | (c, some value, clock) => (c, .ok (some value), clock)
    | (c, none, clock) => c.getDisk clock key decoder
  else (c, .ok none, clock)

/-- What the disk tier holds, read as a byte vector. -/
def asData (value : List Char) : Option (Held Obj) := some (.data value)

/-- `any_cast` to a shared byte vector; an empty result is the null pointer. -/
def castData : Option (Held Obj) → Except Fault (Option (List Char))
  | none => .ok none
  | some (.data bytes) => .ok (some bytes)
  | some (.object _) => .error .badAnyCast

/-- `Get` of a byte vector. What the memory tier returns is cast; the vector that is made of
what the disk tier returns is not, and the cast of it is the identity.
SOURCE: DefaultCache.cpp:201-236 -/
def getData (c : DefaultCache Obj) (clock : Clock) (key : List Char) :
    DefaultCache Obj × Except Fault (Option (List Char)) × Clock :=
  let (c, result, clock) := c.get clock key asData
  (c, result.bind castData, clock)

/-- SOURCE: DefaultCache.cpp:238-253 -/
def remove (c : DefaultCache Obj) (key : List Char) : DefaultCache Obj × Bool :=
  if c.isOpen then
    let c := { c with memoryCache := c.memoryCache.map (InMemoryCache.remove · key) }
    match c.diskCache with
    | none => (c, true)
    | some disk =>
      let (disk, ok) := disk.remove key
      ({ c with diskCache := some disk }, ok)
  else (c, false)

/-- SOURCE: DefaultCache.cpp:255-269 -/
def removeKeysWithPrefix (c : DefaultCache Obj) (key : List Char) : DefaultCache Obj × Bool :=
  if c.isOpen then
    let c := { c with memoryCache := c.memoryCache.map (InMemoryCache.removeKeysWithPrefix · key) }
    match c.diskCache with
    | none => (c, true)
    | some disk =>
      let (disk, ok) := disk.removeKeysWithPrefix key
      ({ c with diskCache := some disk }, ok)
  else (c, false)

/-- `Close` and then `Open` with the same settings: the memory tier is a new one, and the disk
tier opens the database that it has closed.
SOURCE: DefaultCache.cpp:71-86, 271-304 -/
def reopen (c : DefaultCache Obj) (memorySize : Option UInt64) : DefaultCache Obj :=
  { c with isOpen := true, memoryCache := memorySize.map InMemoryCache.new }

/-- The calls the `KeyValueCache` interface takes. -/
inductive Call (Obj : Type) where
  | put (key : List Char) (value : Option (Held Obj)) (encoded : List Char) (expiry : ℤ)
  | putData (key value : List Char) (expiry : ℤ)
  | get (key : List Char) (decoder : List Char → Option (Held Obj))
  | getData (key : List Char)
  | remove (key : List Char)
  | removeKeysWithPrefix (keyPrefix : List Char)

/-- One call, on the cache and what is left of the clock. -/
def step (s : DefaultCache Obj × Clock) : Call Obj → DefaultCache Obj × Clock
  | .put key value encoded expiry =>
    let (c, _, clock) := s.1.put s.2 key value encoded expiry
    (c, clock)
  | .putData key value expiry =>
    let (c, _, clock) := s.1.putData s.2 key value expiry
    (c, clock)
  | .get key decoder =>
    let (c, _, clock) := s.1.get s.2 key decoder
    (c, clock)
  | .getData key =>
    let (c, _, clock) := s.1.getData s.2 key
    (c, clock)
  | .remove key => ((s.1.remove key).1, s.2)
  | .removeKeysWithPrefix keyPrefix => ((s.1.removeKeysWithPrefix keyPrefix).1, s.2)

/-- A run of calls. -/
def run (s : DefaultCache Obj × Clock) (calls : List (Call Obj)) : DefaultCache Obj × Clock :=
  calls.foldl step s

/-- A call made at a time; the clock stands still while it is under way. -/
def stepAt (c : DefaultCache Obj) (timed : ℤ × Call Obj) : DefaultCache Obj :=
  (step (c, fun _ => timed.1) timed.2).1

/-- A run of calls, each made at its own time. -/
def runAt (c : DefaultCache Obj) (calls : List (ℤ × Call Obj)) : DefaultCache Obj :=
  calls.foldl stepAt c

end DefaultCache

end OlpEdgeSdk.Model

import OlpEdgeSdk.Base.SortedMap
import OlpEdgeSdk.Interface.LinkedLru

/-!
# The memory tier

`InMemoryCache` keeps its items in an LRU cache and, beside it, an index from expiry times
to the items that were stored to expire then. Every function holds the mutex for its whole
body, so a function is one step.

Strings are lists of characters. A `boost::any` is an `Option`: `none` is the empty one.
`time_t` is `ℤ`; a sum that leaves the range of the type is undefined in the source and is
not followed here. The clock is the list of the values `m_timeProvider` will return, and a
function that reads it hands back what is left.

SOURCE: InMemoryCache.cpp, InMemoryCache.h
-/

set_option autoImplicit false

namespace OlpEdgeSdk.Model

open OlpEdgeSdk.Base OlpEdgeSdk.Interface

/-- The values the time provider will return, in order. -/
abbrev Clock : Type := ℕ → ℤ

namespace Clock

/-- The next value. -/
def now (clock : Clock) : ℤ := clock 0

/-- The clock after one reading. -/
def rest (clock : Clock) : Clock := fun n => clock (n + 1)

end Clock

/-- `std::numeric_limits<time_t>::max()`, the expiry of an item that does not expire. -/
def timeMax : ℤ := 9223372036854775807

/-- The item with its key, the second after which it is expired and its size.
SOURCE: InMemoryCache.h:37 -/
structure ItemTuple (Item : Type) where
  key : List Char
  expiry : ℤ
  item : Option Item
  size : UInt64
deriving DecidableEq, Repr

/-- SOURCE: InMemoryCache.cpp:33-37 -/
def equalityCacheCost {Item : Type} : ItemTuple Item → UInt64 := fun _ => 1

/-- SOURCE: InMemoryCache.cpp:39-47 -/
def presetModelSizeCacheCost {Item : Type} : ItemTuple Item → UInt64 :=
  fun tuple => if tuple.size = 0 then 1 else tuple.size

/-- SOURCE: InMemoryCache.cpp:59-61 -/
def hasExpiry (expirySeconds : ℤ) : Bool := expirySeconds != timeMax

/-- SOURCE: InMemoryCache.h:70-72 -/
structure InMemoryCache (Item : Type) (cacheCost : ItemTuple Item → UInt64) where
  itemTuples : LinkedLru (List Char) (ItemTuple Item) cacheCost
  itemExpiries : SortedMap ℤ (List (ItemTuple Item))

namespace InMemoryCache

variable {Item : Type} {cacheCost : ItemTuple Item → UInt64}

/-- SOURCE: InMemoryCache.cpp:49-57 -/
def new (maxSize : UInt64) : InMemoryCache Item cacheCost :=
  ⟨LinkedLru.new maxSize, SortedMap.empty⟩

/-- `m_itemExpiries[expireTime]`, which is an empty bucket if there was none. -/
def bucket (c : InMemoryCache Item cacheCost) (expireTime : ℤ) : List (ItemTuple Item) :=
  (c.itemExpiries.find expireTime).getD []

/-- Erase every key listed in a bucket, whatever item it holds by now, and the bucket.
SOURCE: InMemoryCache.cpp:139-147 -/
def purgeExpiredAt (c : InMemoryCache Item cacheCost) (expireTime : ℤ) :
    InMemoryCache Item cacheCost where
  itemTuples := (c.bucket expireTime).foldl (fun l tuple => l.erase tuple.key) c.itemTuples
  itemExpiries := c.itemExpiries.erase expireTime

/-- The expiry times that are in the past. The clock is read again for every bucket.
SOURCE: InMemoryCache.cpp:126-132 -/
def expiredKeys : List (ℤ × List (ItemTuple Item)) → Clock → List ℤ × Clock
  | [], clock => ([], clock)
  | (expiry, _) :: buckets, clock =>
    if expiry < clock.now then
      let (expired, clock) := expiredKeys buckets clock.rest
      (expiry :: expired, clock)
    else
      -- the map is sorted, so any further expiry times will be larger
      ([], clock.rest)

/-- SOURCE: InMemoryCache.cpp:124-137 -/
def purgeExpired (c : InMemoryCache Item cacheCost) (clock : Clock) :
    InMemoryCache Item cacheCost × Clock :=
  let (expired, clock) := expiredKeys c.itemExpiries.entries clock
  (expired.foldl purgeExpiredAt c, clock)

/-- The eviction callback. `expVec` is a copy of the bucket, so the entry erased from it
stays in the index; only a bucket that was empty or absent is erased.
SOURCE: InMemoryCache.cpp:149-163 -/
def onEviction (c : InMemoryCache Item cacheCost) (key : List Char) (value : ItemTuple Item) :
    InMemoryCache Item cacheCost :=
  if hasExpiry value.expiry then
    let expVec := c.bucket value.expiry
    let _expVec := expVec.eraseP fun tuple => tuple.key = key
    if (c.bucket value.expiry).length = 0 then
      { c with itemExpiries := c.itemExpiries.erase value.expiry }
    else c
  else c

/-- `InsertOrAssign` on the LRU cache with the eviction callback that was set in the
constructor. -/
def store (c : InMemoryCache Item cacheCost) (tuple : ItemTuple Item) :
    InMemoryCache Item cacheCost × Bool :=
  let (itemTuples, inserted, evicted) := c.itemTuples.insertOrAssign tuple.key tuple
  (evicted.foldl (fun c e => c.onEviction e.1 e.2) { c with itemTuples := itemTuples }, inserted)

/-- `m_itemExpiries[expireSeconds].push_back(itemTuple)`. -/
def listExpiry (c : InMemoryCache Item cacheCost) (tuple : ItemTuple Item) :
    InMemoryCache Item cacheCost :=
  { c with itemExpiries :=
      c.itemExpiries.insert tuple.expiry (c.bucket tuple.expiry ++ [tuple]) }

/-- SOURCE: InMemoryCache.cpp:63-81 -/
def put (c : InMemoryCache Item cacheCost) (clock : Clock) (key : List Char)
    (item : Option Item) (expireSeconds : ℤ) (size : UInt64) :
    InMemoryCache Item cacheCost × Bool × Clock :=
  let (c, clock) := c.purgeExpired clock
  if hasExpiry expireSeconds then
    -- can't expire in the past
    if expireSeconds ≤ 0 then (c, false, clock)
    else
      let tuple := ⟨key, expireSeconds + clock.now, item, size⟩
      let (c, inserted) := c.store tuple
      (if inserted then c.listExpiry tuple else c, inserted, clock.rest)
  else
    let (c, inserted) := c.store ⟨key, expireSeconds, item, size⟩
    (c, inserted, clock)

/-- SOURCE: InMemoryCache.cpp:83-97 -/
def get (c : InMemoryCache Item cacheCost) (clock : Clock) (key : List Char) :
    InMemoryCache Item cacheCost × Option Item × Clock :=
  let (itemTuples, it) := c.itemTuples.find key
  let c := { c with itemTuples := itemTuples }
  match c.itemTuples.valueAt it with
  | none => (c, none, clock)
  | some tuple =>
    if tuple.expiry < clock.now then (c.purgeExpiredAt tuple.expiry, none, clock.rest)
    else (c, tuple.item, clock.rest)

/-- SOURCE: InMemoryCache.cpp:101-105 -/
def clear (c : InMemoryCache Item cacheCost) : InMemoryCache Item cacheCost :=
  ⟨c.itemTuples.clear, SortedMap.empty⟩

/-- SOURCE: InMemoryCache.cpp:107-110 -/
def remove (c : InMemoryCache Item cacheCost) (key : List Char) :
    InMemoryCache Item cacheCost :=
  { c with itemTuples := c.itemTuples.erase key }

/-- The loop of `RemoveKeysWithPrefix`: at most `n` rounds, from an iterator on.
SOURCE: InMemoryCache.cpp:114-121 -/
def removeLoop (keyPrefix : List Char) : ℕ →
    LinkedLru (List Char) (ItemTuple Item) cacheCost → Option (List Char) →
    LinkedLru (List Char) (ItemTuple Item) cacheCost
  | 0, l, _ => l
  | _ + 1, l, none => l
  | n + 1, l, some key =>
    let after := l.nextIt (some key)
    if key.take keyPrefix.length = keyPrefix then removeLoop keyPrefix n (l.erase key) after
    else removeLoop keyPrefix n l after

/-- SOURCE: InMemoryCache.cpp:112-122 -/
def removeKeysWithPrefix (c : InMemoryCache Item cacheCost) (keyPrefix : List Char) :
    InMemoryCache Item cacheCost :=
  { c with itemTuples :=
      removeLoop keyPrefix c.itemTuples.items.length c.itemTuples c.itemTuples.begin }

/-- The calls the public interface takes. -/
inductive Call (Item : Type) where
  | put (key : List Char) (item : Option Item) (expireSeconds : ℤ) (size : UInt64)
  | get (key : List Char)
  | remove (key : List Char)
  | removeKeysWithPrefix (keyPrefix : List Char)
  | clear

/-- One call, on the cache and what is left of the clock. -/
def step (s : InMemoryCache Item cacheCost × Clock) :
    Call Item → InMemoryCache Item cacheCost × Clock
  | .put key item expireSeconds size =>
    let (c, _, clock) := s.1.put s.2 key item expireSeconds size
    (c, clock)
  | .get key =>
    let (c, _, clock) := s.1.get s.2 key
    (c, clock)
  | .remove key => (s.1.remove key, s.2)
  | .removeKeysWithPrefix keyPrefix => (s.1.removeKeysWithPrefix keyPrefix, s.2)
  | .clear => (s.1.clear, s.2)

/-- A run of calls. -/
def run (s : InMemoryCache Item cacheCost × Clock) (calls : List (Call Item)) :
    InMemoryCache Item cacheCost × Clock :=
  calls.foldl step s

end InMemoryCache

end OlpEdgeSdk.Model

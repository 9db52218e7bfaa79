import Mathlib.Data.List.AList
import Mathlib.Data.UInt
import OlpEdgeSdk.Base.LinkChain
import OlpEdgeSdk.Base.Runs

/-!
# The LRU cache as it is linked in memory

`utils::LruCache` keeps its items in one `std::map` whose values are buckets, and threads
a doubly linked recency list through the buckets: `next_` and `previous_` of a bucket are
iterators of that same map, and `first_` and `last_` are its ends. An iterator is modelled
as `Option Key`, with `none` for `map_.end()`; the map is only ever searched by key, so a
finite map without an order stands for it.

Every function that follows an iterator returns an `Option`: `none` is the run of the C++
code that dereferences `map_.end()`. `size_` and the costs are `std::size_t`, which wraps,
so they are `UInt64`. The eviction callback must not touch the cache (LruCache.h:318-320);
the functions that evict return the evicted items in the order in which the callback is
invoked for them, and the owner of the cache folds its callback over that list.

The cost function is a parameter of the functions, as it is a constructor argument there.

SOURCE: LruCache.h:36-543
-/

set_option autoImplicit false

namespace OlpEdgeSdk.Model

/-- What the map stores under a key: the two links and the value.
SOURCE: LruCache.h:350-379 -/
structure Bucket (Key Value : Type) where
  next : Option Key
  previous : Option Key
  value : Value

/-- The data members of the cache.
SOURCE: LruCache.h:334-340 -/
structure LruCache (Key Value : Type) where
  map : AList fun _ : Key => Bucket Key Value
  first : Option Key
  last : Option Key
  maxSize : UInt64
  size : UInt64

/-- What an insertion returns, with the items handed to the eviction callback on the way:
the iterator and the flag of the returned pair.
SOURCE: LruCache.h:194-219 -/
structure Insertion (Key Value : Type) where
  cache : LruCache Key Value
  it : Option Key
  inserted : Bool
  evicted : List (Key × Value)

namespace LruCache

variable {Key Value : Type} [DecidableEq Key]

/-- The constructor: an empty map between two end iterators.
SOURCE: LruCache.h:139-147 -/
def new (maxSize : UInt64) : LruCache Key Value where
  map := ∅
  first := none
  last := none
  maxSize := maxSize
  size := 0

/-- `it->second.setNext(target)`. -/
def setNext (c : LruCache Key Value) (it target : Option Key) : Option (LruCache Key Value) :=
  it.bind fun key => (c.map.lookup key).map fun b =>
    { c with map := c.map.insert key { b with next := target } }

/-- `it->second.setPrevious(target)`. -/
def setPrevious (c : LruCache Key Value) (it target : Option Key) :
    Option (LruCache Key Value) :=
  it.bind fun key => (c.map.lookup key).map fun b =>
    { c with map := c.map.insert key { b with previous := target } }

/-- Move the bucket of `key` to the front of the recency list.
SOURCE: LruCache.h:462-482 -/
def promote (c : LruCache Key Value) (key : Key) : Option (LruCache Key Value) :=
  if c.first = some key then some c
  else do
    let b ← c.map.lookup key
    -- re-link previous and next buckets together
    let c ← c.setNext b.previous b.next
    let c ← (if b.next ≠ none then c.setPrevious b.next b.previous
      else some { c with last := b.previous })
    -- re-link our bucket
    let c ← c.setPrevious (some key) none
    let c ← c.setNext (some key) c.first
    -- update current head to ourselves
    let c ← c.setPrevious c.first (some key)
    some { c with first := some key }

/-- Unlink the bucket of `key` and erase it. The erased item is returned when the eviction
callback is to be called for it.
SOURCE: LruCache.h:508-529 -/
def eraseAt (cost : Value → UInt64) (c : LruCache Key Value) (key : Key)
    (doEvictionCallback : Bool) : Option (LruCache Key Value × List (Key × Value)) := do
  let b ← c.map.lookup key
  let c ← (if b.next = none then some { c with last := b.previous }
    else c.setPrevious b.next b.previous)
  let c ← (if b.previous = none then some { c with first := b.next }
    else c.setNext b.previous b.next)
  some ({ c with map := c.map.erase key, size := c.size - cost b.value },
    if doEvictionCallback then [(key, b.value)] else [])

/-- Evict the least recently used item. On an empty cache there is no item to
dereference.
SOURCE: LruCache.h:531-541 -/
def popLast (cost : Value → UInt64) (c : LruCache Key Value) :
    Option (LruCache Key Value × List (Key × Value)) :=
  c.last.bind fun key => c.eraseAt cost key true

/-- `while (size_ > max_size_) PopLast();` for at most `n` rounds. -/
def evictLoop (cost : Value → UInt64) :
    ℕ → LruCache Key Value → Option (LruCache Key Value × List (Key × Value))
  | 0, c => if c.size > c.maxSize then none else some (c, [])
  | n + 1, c =>
    if c.size > c.maxSize then do
      let (c, evicted) ← c.popLast cost
      let (c, rest) ← evictLoop cost n c
      some (c, evicted ++ rest)
    else some (c, [])

/-- Evict until the size fits. Every round erases one item of the map and a round on an
empty map dereferences `map_.end()`, so as many rounds as there are items are enough.
SOURCE: LruCache.h:387-389 -/
def evict (cost : Value → UInt64) (c : LruCache Key Value) :
    Option (LruCache Key Value × List (Key × Value)) :=
  evictLoop cost c.map.keys.length c

/-- Link a bucket that has just been put in the map, or account for a changed cost and
promote; then evict.
SOURCE: LruCache.h:484-506 -/
def addInternal (cost : Value → UInt64) (c : LruCache Key Value) (key : Key)
    (newCost : UInt64) (oldCost : Option UInt64) :
    Option (LruCache Key Value × List (Key × Value)) := do
  let c ← (match oldCost with
    | none =>
      if c.map.keys.length = 1 then
        -- we're the first and only one
        some { c with last := some key, first := some key, size := c.size + newCost }
      else do
        -- relink first bucket
        let c ← c.setNext (some key) c.first
        let c ← c.setPrevious c.first (some key)
        some { c with first := some key, size := c.size + newCost }
    | some oldCost =>
      -- key already in map - only promote
      promote { c with size := c.size + (newCost - oldCost) } key)
  c.evict cost

/-- Insert an item unless the key is present, in which case it is only promoted.
SOURCE: LruCache.h:409-431 -/
def insert (cost : Value → UInt64) (c : LruCache Key Value) (key : Key) (value : Value) :
    Option (Insertion Key Value) :=
  -- item too large, do not insert
  if cost value > c.maxSize then some ⟨c, none, false, []⟩
  else match c.map.lookup key with
    | none => do
      let (c, evicted) ← addInternal cost
        { c with map := c.map.insert key ⟨none, none, value⟩ } key (cost value) none
      some ⟨c, some key, true, evicted⟩
    | some _ => do
      let c ← c.promote key
      some ⟨c, some key, false, []⟩

/-- Insert an item, or give a present key the new value. The flag tells the two apart.
SOURCE: LruCache.h:433-460 -/
def insertOrAssign (cost : Value → UInt64) (c : LruCache Key Value) (key : Key)
    (value : Value) : Option (Insertion Key Value) :=
  match c.map.lookup key with
  | some b => do
    -- element already exists, update it
    let (c, evicted) ← addInternal cost
      { c with map := c.map.insert key { b with value := value } } key (cost value)
      (some (cost b.value))
    some ⟨c, some key, false, evicted⟩
  | none =>
    -- element doesn't exist, insert it
    if cost value > c.maxSize then some ⟨c, none, false, []⟩
    else do
      let (c, evicted) ← addInternal cost
        { c with map := c.map.insert key ⟨none, none, value⟩ } key (cost value) none
      some ⟨c, some key, true, evicted⟩

/-- Erase by key; the flag says whether the key was present.
SOURCE: LruCache.h:227-233 -/
def erase (cost : Value → UInt64) (c : LruCache Key Value) (key : Key) :
    Option (LruCache Key Value × Bool) :=
  match c.map.lookup key with
  | none => some (c, false)
  | some _ => (c.eraseAt cost key false).map fun r => (r.1, true)

/-- Look a key up and promote it.
SOURCE: LruCache.h:276-280 -/
def find (c : LruCache Key Value) (key : Key) : Option (LruCache Key Value × Option Key) :=
  match c.map.lookup key with
  | none => some (c, none)
  | some _ => (c.promote key).map fun c => (c, some key)

/-- Look a key up and leave the recency list as it is.
SOURCE: LruCache.h:291-294 -/
def findNoPromote (c : LruCache Key Value) (key : Key) : Option Key :=
  (c.map.lookup key).map fun _ => key

/-- `it.value()`. -/
def valueAt (c : LruCache Key Value) (it : Option Key) : Option Value :=
  it.bind fun key => (c.map.lookup key).map Bucket.value

/-- `++it`: the iterator that follows `it` in the recency list.
SOURCE: LruCache.h:570-577 -/
def nextIt (c : LruCache Key Value) (it : Option Key) : Option Key :=
  it.bind fun key => (c.map.lookup key).bind Bucket.next

/-- Set a new maximum and evict down to it.
SOURCE: LruCache.h:258-261 -/
def resize (cost : Value → UInt64) (c : LruCache Key Value) (maxSize : UInt64) :
    Option (LruCache Key Value × List (Key × Value)) :=
  evict cost { c with maxSize := maxSize }

/-- Drop every item, keeping the maximum.
SOURCE: LruCache.h:312-316 -/
def clear (c : LruCache Key Value) : LruCache Key Value :=
  { c with map := ∅, first := none, last := none, size := 0 }

/-- The calls that change a cache or its order, with `FindNoPromote`, which does not. -/
inductive Call (Key Value : Type) where
  | insert (key : Key) (value : Value)
  | insertOrAssign (key : Key) (value : Value)
  | find (key : Key)
  | findNoPromote (key : Key)
  | erase (key : Key)
  | resize (maxSize : UInt64)
  | clear
deriving DecidableEq

/-- One call: the cache after it and the items the eviction callback is invoked for. -/
def call (cost : Value → UInt64) (c : LruCache Key Value) :
    Call Key Value → Option (LruCache Key Value × List (Key × Value))
  | .insert key value => (c.insert cost key value).map fun r => (r.cache, r.evicted)
  | .insertOrAssign key value =>
    (c.insertOrAssign cost key value).map fun r => (r.cache, r.evicted)
  | .find key => (c.find key).map fun r => (r.1, [])
  | .findNoPromote _ => some (c, [])
  | .erase key => (c.erase cost key).map fun r => (r.1, [])
  | .resize maxSize => c.resize cost maxSize
  | .clear => some (c.clear, [])

/-- The cache after a run of calls on an empty one. -/
def run (cost : Value → UInt64) (maxSize : UInt64) (calls : List (Call Key Value)) :
    Option (LruCache Key Value) :=
  Base.runFrom (fun c call => (c.call cost call).map Prod.fst) (new maxSize) calls

/-- The keys met by following `next_` from `first_`. -/
def walk (c : LruCache Key Value) : List Key :=
  Base.follow (fun key => c.nextIt (some key)) c.map.keys.length c.first

/-- The items in the order in which `begin()` to `end()` visits them. -/
def toList (c : LruCache Key Value) : List (Key × Value) :=
  c.walk.filterMap fun key => (c.valueAt (some key)).map fun value => (key, value)

end LruCache

end OlpEdgeSdk.Model

import OlpEdgeSdk.Model.LruCache

/-!
# The LRU cache when it is moved

An iterator of a `std::map` is one of an element or the end of that map. When a map is moved,
its element iterators go with the elements and stay valid for the map that has them now; its end
iterator goes on being the end of the map that has been emptied. `utils::LruCache` keeps end
iterators in `first_`, `last_` and in the links of the buckets, so here an iterator names its
map. An iterator is only followed in the map it belongs to: `none` is the run of the C++ code
that dereferences an end iterator, of the cache's own map or of another one.

The functions are those of `Model.LruCache`, where every iterator is of the one map of the
cache. A map object is a number, as its address would be.

SOURCE: LruCache.h:149-177, 227-316, 387-543, 570-577
-/

set_option autoImplicit false

namespace OlpEdgeSdk.Model

/-- An iterator of a map: at one of its keys, or at its end. -/
structure MapIterator (Key : Type) where
  map : ℕ
  key : Option Key
deriving DecidableEq

/-- Moving a map takes its element iterators along, and not its end. -/
def MapIterator.moved {Key : Type} (source target : ℕ) (it : MapIterator Key) :
    MapIterator Key :=
  if it.map = source ∧ it.key.isSome then ⟨target, it.key⟩ else it

/-- SOURCE: LruCache.h:350-379 -/
structure MovableBucket (Key Value : Type) where
  next : MapIterator Key
  previous : MapIterator Key
  value : Value

def MovableBucket.moved {Key Value : Type} (source target : ℕ) (b : MovableBucket Key Value) :
    MovableBucket Key Value where
  next := b.next.moved source target
  previous := b.previous.moved source target
  value := b.value

/-- A map with a function applied to the values. -/
def mapValues {Key A B : Type} (f : A → B) (m : AList fun _ : Key => A) :
    AList fun _ : Key => B :=
  ⟨m.entries.map (.map id fun _ => f), m.nodupKeys.map₂ fun _ => f⟩

/-- The data members of the cache, and which map object its `map_` is.
SOURCE: LruCache.h:334-340 -/
structure MovableLruCache (Key Value : Type) where
  id : ℕ
  map : AList fun _ : Key => MovableBucket Key Value
  first : MapIterator Key
  last : MapIterator Key
  maxSize : UInt64
  size : UInt64

namespace MovableLruCache

variable {Key Value : Type}

/-- `map_.end()` -/
def endIt (c : MovableLruCache Key Value) : MapIterator Key := ⟨c.id, none⟩

/-- SOURCE: LruCache.h:139-147 -/
def new (id : ℕ) (maxSize : UInt64) : MovableLruCache Key Value where
  id := id
  map := ∅
  first := ⟨id, none⟩
  last := ⟨id, none⟩
  maxSize := maxSize
  size := 0

variable [DecidableEq Key]

/-- `map_.find(key)` -/
def findIt (c : MovableLruCache Key Value) (key : Key) : MapIterator Key :=
  if (c.map.lookup key).isSome then ⟨c.id, some key⟩ else c.endIt

/-- `*it`: the key and the bucket of an element. -/
def deref (c : MovableLruCache Key Value) (it : MapIterator Key) :
    Option (Key × MovableBucket Key Value) :=
  if it.map = c.id then it.key.bind fun key => (c.map.lookup key).map fun b => (key, b) else none

/-- `it->second.setNext(target)`. -/
def setNext (c : MovableLruCache Key Value) (it target : MapIterator Key) :
    Option (MovableLruCache Key Value) :=
  (c.deref it).map fun e => { c with map := c.map.insert e.1 { e.2 with next := target } }

/-- `it->second.setPrevious(target)`. -/
def setPrevious (c : MovableLruCache Key Value) (it target : MapIterator Key) :
    Option (MovableLruCache Key Value) :=
  (c.deref it).map fun e => { c with map := c.map.insert e.1 { e.2 with previous := target } }

/-- SOURCE: LruCache.h:462-482 -/
def promote (c : MovableLruCache Key Value) (it : MapIterator Key) :
    Option (MovableLruCache Key Value) :=
  if it = c.first then some c
  else do
    let (_, b) ← c.deref it
    -- re-link previous and next buckets together
    let c ← c.setNext b.previous b.next
    let c ← (if b.next ≠ c.endIt then c.setPrevious b.next b.previous
      else some { c with last := b.previous })
    -- re-link our bucket
    let c ← c.setPrevious it c.endIt
    let c ← c.setNext it c.first
    -- update current head to ourselves
    let c ← c.setPrevious c.first it
    some { c with first := it }

/-- SOURCE: LruCache.h:508-529 -/
def eraseAt (cost : Value → UInt64) (c : MovableLruCache Key Value) (it : MapIterator Key)
    (doEvictionCallback : Bool) : Option (MovableLruCache Key Value × List (Key × Value)) := do
  let (key, b) ← c.deref it
  let c ← (if b.next = c.endIt then some { c with last := b.previous }
    else c.setPrevious b.next b.previous)
  let c ← (if b.previous = c.endIt then some { c with first := b.next }
    else c.setNext b.previous b.next)
  some ({ c with map := c.map.erase key, size := c.size - cost b.value },
    if doEvictionCallback then [(key, b.value)] else [])

/-- SOURCE: LruCache.h:531-541 -/
def popLast (cost : Value → UInt64) (c : MovableLruCache Key Value) :
    Option (MovableLruCache Key Value × List (Key × Value)) :=
  c.eraseAt cost c.last true

/-- `while (size_ > max_size_) PopLast();` for at most `n` rounds. -/
def evictLoop (cost : Value → UInt64) :
    ℕ → MovableLruCache Key Value → Option (MovableLruCache Key Value × List (Key × Value))
  | 0, c => if c.size > c.maxSize then none else some (c, [])
  | n + 1, c =>
    if c.size > c.maxSize then do
      let (c, evicted) ← c.popLast cost
      let (c, rest) ← evictLoop cost n c
      some (c, evicted ++ rest)
    else some (c, [])

/-- SOURCE: LruCache.h:387-389 -/
def evict (cost : Value → UInt64) (c : MovableLruCache Key Value) :
    Option (MovableLruCache Key Value × List (Key × Value)) :=
  evictLoop cost c.map.keys.length c

/-- SOURCE: LruCache.h:484-506 -/
def addInternal (cost : Value → UInt64) (c : MovableLruCache Key Value) (it : MapIterator Key)
    (newCost : UInt64) (oldCost : Option UInt64) :
    Option (MovableLruCache Key Value × List (Key × Value)) := do
  let c ← (match oldCost with
    | none =>
      if c.map.keys.length = 1 then
        -- we're the first and only one
        some { c with last := it, first := it, size := c.size + newCost }
      else do
        -- relink first bucket
        let c ← c.setNext it c.first
        let c ← c.setPrevious c.first it
        some { c with first := it, size := c.size + newCost }
    | some oldCost =>
      -- key already in map - only promote
      promote { c with size := c.size + (newCost - oldCost) } it)
  c.evict cost

/-- What a call returns: the pair of an insertion, the iterator of a `Find`, the flag of an
`Erase`, the items that an iteration has visited. An iterator is given by the key it is at. -/
inductive Answer (Key Value : Type) where
  | inserted (it : Option Key) (flag : Bool) (evicted : List (Key × Value))
  | found (it : Option Key)
  | erased (flag : Bool)
  | resized (evicted : List (Key × Value))
  | cleared
  | visited (items : List (Key × Value))
deriving DecidableEq

/-- SOURCE: LruCache.h:409-431 -/
def insert (cost : Value → UInt64) (c : MovableLruCache Key Value) (key : Key) (value : Value) :
    Option (MovableLruCache Key Value × Answer Key Value) :=
  -- item too large, do not insert
  if cost value > c.maxSize then some (c, .inserted none false [])
  else match c.map.lookup key with
    | none => do
      let (c, evicted) ← addInternal cost
        { c with map := c.map.insert key ⟨c.endIt, c.endIt, value⟩ } ⟨c.id, some key⟩ (cost value)
        none
      some (c, .inserted (some key) true evicted)
    | some _ => do
      let c ← c.promote ⟨c.id, some key⟩
      some (c, .inserted (some key) false [])

/-- SOURCE: LruCache.h:433-460 -/
def insertOrAssign (cost : Value → UInt64) (c : MovableLruCache Key Value) (key : Key)
    (value : Value) : Option (MovableLruCache Key Value × Answer Key Value) :=
  match c.map.lookup key with
  | some b => do
    -- element already exists, update it
    let (c, evicted) ← addInternal cost
      { c with map := c.map.insert key { b with value := value } } ⟨c.id, some key⟩ (cost value)
      (some (cost b.value))
    some (c, .inserted (some key) false evicted)
  | none =>
    -- element doesn't exist, insert it
    if cost value > c.maxSize then some (c, .inserted none false [])
    else do
      let (c, evicted) ← addInternal cost
        { c with map := c.map.insert key ⟨c.endIt, c.endIt, value⟩ } ⟨c.id, some key⟩ (cost value)
        none
      some (c, .inserted (some key) true evicted)

/-- SOURCE: LruCache.h:227-233 -/
def erase (cost : Value → UInt64) (c : MovableLruCache Key Value) (key : Key) :
    Option (MovableLruCache Key Value × Answer Key Value) :=
  match c.map.lookup key with
  | none => some (c, .erased false)
  | some _ => (c.eraseAt cost ⟨c.id, some key⟩ false).map fun r => (r.1, .erased true)

/-- SOURCE: LruCache.h:276-280 -/
def find (c : MovableLruCache Key Value) (key : Key) :
    Option (MovableLruCache Key Value × Answer Key Value) :=
  match c.map.lookup key with
  | none => some (c, .found none)
  | some _ => (c.promote ⟨c.id, some key⟩).map fun c => (c, .found (some key))

/-- SOURCE: LruCache.h:258-261 -/
def resize (cost : Value → UInt64) (c : MovableLruCache Key Value) (maxSize : UInt64) :
    Option (MovableLruCache Key Value × Answer Key Value) :=
  (evict cost { c with maxSize := maxSize }).map fun r => (r.1, .resized r.2)

/-- SOURCE: LruCache.h:312-316 -/
def clear (c : MovableLruCache Key Value) : MovableLruCache Key Value :=
  { c with map := ∅, first := c.endIt, last := c.endIt, size := 0 }

/-- At most `n` rounds of `for (; it != end(); ++it)`, with the items that are visited.
SOURCE: LruCache.h:299-302, 570-577 -/
def visitFrom (c : MovableLruCache Key Value) : ℕ → MapIterator Key → Option (List (Key × Value))
  | 0, _ => some []
  | n + 1, it =>
    if it = c.endIt then some []
    else do
      let (key, b) ← c.deref it
      let rest ← c.visitFrom n b.next
      some ((key, b.value) :: rest)

/-- At most `n` rounds of the loop from `begin()`. -/
def visit (c : MovableLruCache Key Value) (n : ℕ) : Option (List (Key × Value)) :=
  c.visitFrom n c.first

/-- What is done with a cache: its calls, and `n` rounds of an iteration. -/
inductive Use (Key Value : Type) where
  | call (call : LruCache.Call Key Value)
  | visit (n : ℕ)
deriving DecidableEq

/-- One use: the cache after it, and the answer. -/
def use (cost : Value → UInt64) (c : MovableLruCache Key Value) :
    Use Key Value → Option (MovableLruCache Key Value × Answer Key Value)
  | .call (.insert key value) => c.insert cost key value
  | .call (.insertOrAssign key value) => c.insertOrAssign cost key value
  | .call (.find key) => c.find key
  | .call (.findNoPromote key) => some (c, .found (c.findIt key).key)
  | .call (.erase key) => c.erase cost key
  | .call (.resize maxSize) => c.resize cost maxSize
  | .call .clear => some (c.clear, .cleared)
  | .visit n => (c.visit n).map fun items => (c, .visited items)

/-- The answers of a sequence of uses. -/
def answers (cost : Value → UInt64) :
    MovableLruCache Key Value → List (Use Key Value) → Option (List (Answer Key Value))
  | _, [] => some []
  | c, u :: us => do
    let (c, answer) ← c.use cost u
    let rest ← answers cost c us
    some (answer :: rest)

/-- The cache after a run of uses on an empty one. -/
def run (cost : Value → UInt64) (id : ℕ) (maxSize : UInt64) (uses : List (Use Key Value)) :
    Option (MovableLruCache Key Value) :=
  Base.runFrom (fun c u => (c.use cost u).map Prod.fst) (new id maxSize) uses

/-! ## Moves -/

/-- The end of the list of another cache whose map has been moved here already:
`other.first_ != map_.end() ? map_.find(other.first_->first) : map_.end()`. -/
def takenOver (c : MovableLruCache Key Value) (it : MapIterator Key) :
    Option (MapIterator Key) :=
  if it ≠ c.endIt then (c.deref it).map fun e => c.findIt e.1 else some c.endIt

/-- What is left of a cache whose map has been moved to `target`: an empty map, and the
iterators that have gone with the elements. -/
def emptied (c : MovableLruCache Key Value) (target : ℕ) : MovableLruCache Key Value :=
  { c with
    map := ∅
    first := c.first.moved c.id target
    last := c.last.moved c.id target }

/-- `map_ = std::move(other.map_)`. -/
def takeMap (c other : MovableLruCache Key Value) : MovableLruCache Key Value :=
  { c with map := mapValues (MovableBucket.moved other.id c.id) other.map }

/-- A new cache, whose map is the object `id`, and what is left of the other one.
SOURCE: LruCache.h:149-160 -/
def moveConstruct (id : ℕ) (other : MovableLruCache Key Value) :
    Option (MovableLruCache Key Value × MovableLruCache Key Value) := do
  let c := takeMap (new id other.maxSize) other
  let left := other.emptied id
  let first ← c.takenOver left.first
  let last ← c.takenOver left.last
  some ({ c with first := first, last := last, size := other.size }, left)

/-- The cache that is assigned to, and what is left of the other one.
SOURCE: LruCache.h:166-177 -/
def moveAssign (c other : MovableLruCache Key Value) :
    Option (MovableLruCache Key Value × MovableLruCache Key Value) := do
  let taken := c.takeMap other
  let left := other.emptied c.id
  let first ← taken.takenOver left.first
  let last ← taken.takenOver left.last
  some ({ taken with first := first, last := last, maxSize := other.maxSize, size := other.size },
    { left with maxSize := c.maxSize, size := c.size })

end MovableLruCache

end OlpEdgeSdk.Model

import OlpEdgeSdk.Analysis.LruCacheChain

/-!
# Caches whose links are in order

A `LinkedLru` is a `Model.LruCache` together with the proof that its buckets are linked as
one list. Every function of the cache keeps that (`Analysis.LruCacheChain`), so on a
`LinkedLru` the functions are total: no run of theirs dereferences an end iterator, and the
owner of a cache needs no case for it.

The value computed is still the one of the linked structure; `items` reads it as a list,
and one lemma for each function says what it does to that list.
-/

set_option autoImplicit false

namespace OlpEdgeSdk.Interface

open OlpEdgeSdk.Model OlpEdgeSdk.Base OlpEdgeSdk.Analysis

/-- A cache and the proof that it is linked as the list it is walked as. -/
structure LinkedLru (Key Value : Type) [DecidableEq Key] (cost : Value → UInt64) where
  raw : LruCache Key Value
  linked : Represents cost raw raw.toList

namespace LinkedLru

variable {Key Value : Type} [DecidableEq Key] {cost : Value → UInt64}

/-- The items, most recent first. -/
def items (l : LinkedLru Key Value cost) : List (Key × Value) := l.raw.toList

/-- The maximum size. -/
def maxSize (l : LinkedLru Key Value cost) : UInt64 := l.raw.maxSize

/-- The bundled form of a cache that represents some list. -/
def ofRepresents (c : LruCache Key Value) (h : ∃ items, Represents cost c items) :
    LinkedLru Key Value cost :=
  ⟨c, by obtain ⟨items, hitems⟩ := h; rwa [hitems.toList_eq]⟩

/-- `LruCache(maxSize)`. -/
def new (maxSize : UInt64) : LinkedLru Key Value cost :=
  ofRepresents (LruCache.new maxSize) ⟨[], Represents.new maxSize⟩

/-- `Clear()`. -/
def clear (l : LinkedLru Key Value cost) : LinkedLru Key Value cost :=
  ofRepresents l.raw.clear ⟨[], Represents.clear l.raw⟩

/-- `Find(key)`: the cache with the key promoted, and the iterator. -/
def find (l : LinkedLru Key Value cost) (key : Key) : LinkedLru Key Value cost × Option Key :=
  have hsome : (l.raw.find key).isSome := by
    obtain ⟨c, e, -⟩ := l.linked.find key
    rw [e]
    rfl
  (ofRepresents ((l.raw.find key).get hsome).1 (by
    obtain ⟨c, e, h, -⟩ := l.linked.find key
    exact ⟨_, by simpa [e] using h⟩), ((l.raw.find key).get hsome).2)

/-- `Erase(key)`: the cache without the key. -/
def erase (l : LinkedLru Key Value cost) (key : Key) : LinkedLru Key Value cost :=
  have hsome : (l.raw.erase cost key).isSome := by
    obtain ⟨c, e, -⟩ := l.linked.erase key
    rw [e]
    rfl
  ofRepresents ((l.raw.erase cost key).get hsome).1 (by
    obtain ⟨c, e, h, -⟩ := l.linked.erase key
    exact ⟨_, by simpa [e] using h⟩)

/-- `InsertOrAssign(key, value)`: the cache, the flag of the returned pair, and the items
passed to the eviction callback. -/
def insertOrAssign (l : LinkedLru Key Value cost) (key : Key) (value : Value) :
    LinkedLru Key Value cost × Bool × List (Key × Value) :=
  have hsome : (l.raw.insertOrAssign cost key value).isSome := by
    obtain ⟨r, e, -⟩ := l.linked.insertOrAssign key value
    rw [e]
    rfl
  (ofRepresents ((l.raw.insertOrAssign cost key value).get hsome).cache (by
    obtain ⟨r, e, h, -⟩ := l.linked.insertOrAssign key value
    exact ⟨_, by simpa [e] using h⟩),
    ((l.raw.insertOrAssign cost key value).get hsome).inserted,
    ((l.raw.insertOrAssign cost key value).get hsome).evicted)

/-- `it.value()`. -/
def valueAt (l : LinkedLru Key Value cost) (it : Option Key) : Option Value := l.raw.valueAt it

/-- `++it`. -/
def nextIt (l : LinkedLru Key Value cost) (it : Option Key) : Option Key := l.raw.nextIt it

/-- `begin()`. -/
def begin (l : LinkedLru Key Value cost) : Option Key := l.raw.first

/-! ## What the functions do to the list -/

variable (l : LinkedLru Key Value cost)

theorem nodup : (Assoc.keys l.items).Nodup := l.linked.nodup

theorem items_ofRepresents {c : LruCache Key Value} {items : List (Key × Value)}
    (h : Represents cost c items) (h' : ∃ items, Represents cost c items) :
    (ofRepresents c h').items = items :=
  h.toList_eq

@[simp] theorem items_new (maxSize : UInt64) :
    (new maxSize : LinkedLru Key Value cost).items = [] :=
  have h : Represents cost (LruCache.new maxSize : LruCache Key Value) [] := Represents.new maxSize
  h.toList_eq

@[simp] theorem maxSize_new (maxSize : UInt64) :
    (new maxSize : LinkedLru Key Value cost).maxSize = maxSize := rfl

@[simp] theorem items_clear : l.clear.items = [] :=
  have h : Represents cost l.raw.clear [] := Represents.clear l.raw
  h.toList_eq

@[simp] theorem maxSize_clear : l.clear.maxSize = l.maxSize := rfl

@[simp] theorem valueAt_some (key : Key) :
    l.valueAt (some key) = Assoc.valueOf l.items key :=
  l.linked.value key

@[simp] theorem begin_eq : l.begin = (Assoc.keys l.items).head? := l.linked.first

theorem nextIt_of_split {a d : List (Key × Value)} {key : Key} {value : Value}
    (h : l.items = a ++ (key, value) :: d) : l.nextIt (some key) = (Assoc.keys d).head? := by
  have hb := l.linked.bucket_of_split h
  simp [nextIt, LruCache.nextIt, hb]

@[simp] theorem items_find (key : Key) : (l.find key).1.items = Recency.touch l.items key := by
  obtain ⟨c, e, h, -⟩ := l.linked.find key
  simp only [find, e, Option.get_some]
  exact items_ofRepresents h ⟨_, h⟩

@[simp] theorem find_it (key : Key) :
    (l.find key).2 = if key ∈ Assoc.keys l.items then some key else none := by
  obtain ⟨c, e, -⟩ := l.linked.find key
  simp only [find, e, Option.get_some]
  rfl

@[simp] theorem maxSize_find (key : Key) : (l.find key).1.maxSize = l.maxSize := by
  obtain ⟨c, e, -, hmax⟩ := l.linked.find key
  simp only [find, e, Option.get_some]
  exact hmax

@[simp] theorem items_erase (key : Key) : (l.erase key).items = Assoc.without l.items key := by
  obtain ⟨c, e, h, -⟩ := l.linked.erase key
  simp only [erase, e, Option.get_some]
  exact items_ofRepresents h ⟨_, h⟩

@[simp] theorem maxSize_erase (key : Key) : (l.erase key).maxSize = l.maxSize := by
  obtain ⟨c, e, -, hmax⟩ := l.linked.erase key
  simp only [erase, e, Option.get_some]
  exact hmax

@[simp] theorem items_insertOrAssign (key : Key) (value : Value) :
    (l.insertOrAssign key value).1.items =
      (Recency.insertOrAssign cost l.maxSize l.items key value).1 := by
  obtain ⟨r, e, h, -⟩ := l.linked.insertOrAssign key value
  simp only [insertOrAssign, e, Option.get_some]
  exact items_ofRepresents h ⟨_, h⟩

/-- The flag tells a stored new item from an assigned or a refused one. -/
theorem insertOrAssign_inserted (key : Key) (value : Value) :
    (l.insertOrAssign key value).2.1 = true ↔
      key ∉ Assoc.keys l.items ∧ cost value ≤ l.maxSize := by
  obtain ⟨r, e, -, -, -, h, -⟩ := l.linked.insertOrAssign key value
  simp only [insertOrAssign, e, Option.get_some]
  rw [h, decide_eq_true_iff]
  rfl

/-- The items the eviction callback is called for, in order. -/
@[simp] theorem insertOrAssign_evicted (key : Key) (value : Value) :
    (l.insertOrAssign key value).2.2 =
      (Recency.insertOrAssign cost l.maxSize l.items key value).2 := by
  obtain ⟨r, e, -, h, -⟩ := l.linked.insertOrAssign key value
  simp only [insertOrAssign, e, Option.get_some]
  exact h

@[simp] theorem maxSize_insertOrAssign (key : Key) (value : Value) :
    (l.insertOrAssign key value).1.maxSize = l.maxSize := by
  obtain ⟨r, e, -, -, h, -⟩ := l.linked.insertOrAssign key value
  simp only [insertOrAssign, e, Option.get_some]
  exact h

end LinkedLru

end OlpEdgeSdk.Interface

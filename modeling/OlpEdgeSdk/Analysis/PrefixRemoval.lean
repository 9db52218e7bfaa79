import OlpEdgeSdk.Analysis.DefaultCacheTiers
import OlpEdgeSdk.Base.WhileLoops

/-!
# Removing by prefix, in both tiers

`InMemoryCache::RemoveKeysWithPrefix` walks the recency list and erases while it walks: the
iterator is moved on before its item is unlinked (LruCache.h:235-241). The loop is run here
without a bound on its turns, and ends at the end of the list (`prefixLoop_endsIn`), after as
many turns as there are items.

`DiskCache::RemoveKeysWithPrefix` scans the keys from the first one that is not smaller than the
prefix to the first one that does not start with it (`eraseAll_scan`). The database compares the
bytes of its keys; a character stands for a byte there, and the order of `Base.PrefixBlock` is any
linear order.

Both are the plain filter: `prefix_removal_exact`.
-/

set_option autoImplicit false

namespace OlpEdgeSdk.Analysis

open OlpEdgeSdk.Model OlpEdgeSdk.Base OlpEdgeSdk.Interface

/-! ## The walk over the recency list -/

section

variable {Item : Type} {cacheCost : ItemTuple Item → UInt64}

/-- `it != m_itemTuples.end()`. -/
def InMemoryCache.notAtEnd (s : InMemoryCache.Walk Item cacheCost) : Bool := s.2.isSome

/-- From an iterator on, the loop takes as many turns as there are items to come, and computes
what the model does. -/
theorem whileLoop_prefixTurn (keyPrefix : List Char) (s : InMemoryCache.Walk Item cacheCost)
    {front back : List (List Char × ItemTuple Item)} (hitems : s.1.items = front ++ back)
    (hit : s.2 = (Assoc.keys back).head?) :
    whileLoop InMemoryCache.notAtEnd (InMemoryCache.prefixTurn keyPrefix) back.length s =
      some (Model.InMemoryCache.removeLoop keyPrefix back.length s.1 s.2, none) := by
  induction back generalizing s front with
  | nil =>
    obtain ⟨l, it⟩ := s
    obtain rfl : it = none := hit
    rfl
  | cons e back ih =>
    obtain ⟨hturn, hnext⟩ := InMemoryCache.items_prefixTurn keyPrefix hitems hit
    have hguard : InMemoryCache.notAtEnd s = true := by
      rw [InMemoryCache.notAtEnd, hit]
      rfl
    rw [List.length_cons, whileLoop_succ hguard, InMemoryCache.removeLoop_succ]
    exact ih (InMemoryCache.prefixTurn keyPrefix s) hturn hnext

/-- **The loop ends**, and then the iterator is at the end of the list.
SOURCE: InMemoryCache.cpp:112-122 -/
theorem prefixLoop_endsIn (c : InMemoryCache Item cacheCost) (keyPrefix : List Char) :
    EndsIn InMemoryCache.notAtEnd (InMemoryCache.prefixTurn keyPrefix)
      (c.itemTuples, c.itemTuples.begin) ((c.removeKeysWithPrefix keyPrefix).itemTuples, none) :=
  ⟨c.itemTuples.items.length,
    whileLoop_prefixTurn keyPrefix (c.itemTuples, c.itemTuples.begin)
      (List.nil_append c.itemTuples.items).symm c.itemTuples.begin_eq⟩

end

/-! ## Both tiers -/

/-- **Removing by prefix is exact in both tiers.** In memory the loop ends, the items that stay
are those whose key has another start, in the order they had, and the size is the sum of their
costs. On disk the entries that stay are those whose key has another start, and if the database
refuses the write, all of them.
SOURCE: InMemoryCache.cpp:112-122, DiskCache.cpp:277-307 -/
theorem prefix_removal_exact {Item : Type} {cacheCost : ItemTuple Item → UInt64}
    (c : InMemoryCache Item cacheCost) (db : SortedMap (List Char) (List Char))
    (writes : ℕ → Bool) (keyPrefix : List Char) :
    let kept := c.itemTuples.items.filter fun e => ¬ keyPrefix <+: e.1
    let l := (c.removeKeysWithPrefix keyPrefix).itemTuples
    let d := DiskCache.removeKeysWithPrefix ⟨some db, writes⟩ keyPrefix
    (EndsIn InMemoryCache.notAtEnd (InMemoryCache.prefixTurn keyPrefix)
        (c.itemTuples, c.itemTuples.begin) (l, none) ∧
      l.items = kept ∧ l.raw.size = Recency.total cacheCost kept) ∧
      d.2 = writes 0 ∧
      d.1.database = some (if writes 0 then db.filterKeys fun key => ¬ keyPrefix <+: key
        else db) := by
  intro kept l d
  have hitems : l.items = kept := by
    rw [InMemoryCache.items_removeKeysWithPrefix]
    apply List.filter_congr
    intro e _
    simp [List.prefix_iff_eq_take, eq_comm]
  refine ⟨⟨prefixLoop_endsIn c keyPrefix, hitems, ?_⟩, rfl, ?_⟩
  · rw [← hitems]
    exact l.linked.size
  · show (if writes 0 then some _ else some db) = _
    rw [DefaultCache.eraseAll_scan]
    split <;> rfl

end OlpEdgeSdk.Analysis

import OlpEdgeSdk.Analysis.LruCacheRuns

/-!
# What the results of an insertion say

`Insert` and `InsertOrAssign` return an iterator to the item of the key, or the end when the
item could not be inserted (LruCache.h:193-196, 209-214). Both refuse a new item that is too
costly up front. `InsertOrAssign` on a key that is present does not: it stores the value,
promotes the key and then evicts, and when the value does not fit even alone, the item itself
is the last one evicted. The iterator to it is returned all the same
(`assigned_item_is_evicted`). `insertions_trusted_iff` says for which values the results can
be trusted.

The costs are summed in `std::size_t`, so that a value that is too costly may fit again together
with others; `fitsInFront_iff` is about the sums that do not wrap.
-/

set_option autoImplicit false

namespace OlpEdgeSdk.Analysis

open OlpEdgeSdk.Model OlpEdgeSdk.Base OlpEdgeSdk.Interface

variable {Key Value : Type} [DecidableEq Key]

/-- The iterator of an insertion into `c` is the end or points to the item of the key, and
when it is the end, the cache has the items it had, in the same order, and the same size. -/
structure Trusted (c : LruCache Key Value) (key : Key) (r : Insertion Key Value) : Prop where
  points_at : ∀ it, r.it = some it → it = key ∧ key ∈ r.cache.map
  refused : r.it = none → r.cache.toList = c.toList ∧ r.cache.size = c.size

/-- Both insertions of the value under the key return what can be trusted, and where
`InsertOrAssign` returns an iterator, the item has the value. -/
structure InsertionsTrusted (cost : Value → UInt64) (c : LruCache Key Value) (key : Key)
    (value : Value) : Prop where
  insert : ∃ r, c.insert cost key value = some r ∧ Trusted c key r
  insertOrAssign : ∃ r, c.insertOrAssign cost key value = some r ∧ Trusted c key r ∧
    ∀ it, r.it = some it → r.cache.valueAt (some it) = some value

/-- The value fits together with some of the other items, the most recent ones first. -/
def FitsInFront (cost : Value → UInt64) (c : LruCache Key Value) (key : Key) (value : Value) :
    Prop :=
  ∃ rest, rest <+: Assoc.without c.toList key ∧ cost value + Recency.total cost rest ≤ c.maxSize

/-- Where the sum of the costs does not wrap, a value fits in front iff it fits alone. -/
theorem fitsInFront_iff {cost : Value → UInt64} {c : LruCache Key Value} {key : Key}
    {value : Value} (hsum : Recency.weight cost (Assoc.put c.toList key value) < 2 ^ 64) :
    FitsInFront cost c key value ↔ cost value ≤ c.maxSize := by
  constructor
  · rintro ⟨rest, hrest, hfits⟩
    obtain ⟨older, holder⟩ := hrest
    rw [Assoc.put, ← holder, Recency.weight_cons, Recency.weight_append] at hsum
    rw [← Recency.total_cons (e := (key, value)), UInt64.le_iff_toNat_le,
      Recency.toNat_total (by rw [Recency.weight_cons]; omega), Recency.weight_cons] at hfits
    rw [UInt64.le_iff_toNat_le]
    exact (Nat.le_add_right _ _).trans hfits
  · intro hfits
    exact ⟨[], List.nil_prefix, by simpa using hfits⟩

namespace Represents

variable {cost : Value → UInt64} {c : LruCache Key Value} {items : List (Key × Value)}

/-- After the eviction the cache holds the item that was put in front iff it fits there. -/
theorem valueAt_front_iff (h : Represents cost c items) {c' : LruCache Key Value} {key : Key}
    {value : Value}
    (h' : Represents cost c' (Recency.shrink cost c.maxSize (Assoc.put items key value)).1) :
    c'.valueAt (some key) = some value ↔ FitsInFront cost c key value := by
  rw [h'.value, FitsInFront, h.toList_eq]
  constructor
  · intro hvalue
    obtain ⟨newer, older, hsplit, -⟩ := Assoc.split_of_valueOf hvalue
    have hmem : (key, value) ∈ (Recency.shrink cost c.maxSize (Assoc.put items key value)).1 := by
      rw [hsplit]
      exact List.mem_append_right newer List.mem_cons_self
    exact Recency.mem_shrink_cons_iff.mp hmem
  · intro hfits
    exact Assoc.valueOf_of_mem h'.nodup (Recency.mem_shrink_cons_iff.mpr hfits)

/-- After the eviction the key of the item that was put in front has its value or is gone. -/
theorem mem_map_front_iff (h : Represents cost c items) {c' : LruCache Key Value} {key : Key}
    {value : Value}
    (h' : Represents cost c' (Recency.shrink cost c.maxSize (Assoc.put items key value)).1) :
    key ∈ c'.map ↔ FitsInFront cost c key value := by
  rw [← h.valueAt_front_iff h', h'.mem_map_iff, ← Assoc.valueOf_isSome, h'.value]
  have hput : Assoc.valueOf (Assoc.put items key value) key = some value := by
    rw [Assoc.valueOf_put, if_pos rfl]
  cases Recency.valueOf_shrink cost c.maxSize (Assoc.put items key value) key with
  | inl hkept => simp [hkept, hput]
  | inr hgone => simp [hgone]

/-- An insertion that leaves the items as they were can be trusted. -/
theorem trusted_of_refused (h : Represents cost c items) {key : Key} {r : Insertion Key Value}
    (h' : Represents cost r.cache items) (hit : r.it = none) : Trusted c key r := by
  refine ⟨fun it hsome => ?_, fun _ => ⟨?_, ?_⟩⟩
  · rw [hit] at hsome
    cases hsome
  · rw [h'.toList_eq, h.toList_eq]
  · rw [h'.size, h.size]

theorem trusted_of_points_at (key : Key) {r : Insertion Key Value} (hit : r.it = some key)
    (hmem : key ∈ r.cache.map) : Trusted c key r := by
  refine ⟨fun it hsome => ⟨?_, hmem⟩, fun hnone => ?_⟩
  · rw [hit] at hsome
    exact (Option.some.inj hsome).symm
  · rw [hit] at hnone
    cases hnone

/-- `Insert` can be trusted, whatever it is given.
SOURCE: LruCache.h:409-431 -/
theorem insert_trusted (h : Represents cost c items) (key : Key) (value : Value) :
    ∃ r, c.insert cost key value = some r ∧ Trusted c key r := by
  by_cases hkey : key ∈ Assoc.keys items
  · obtain ⟨r, e', h', -, -, hit⟩ := h.insert_present value hkey
    refine ⟨r, e', ?_⟩
    split at hit
    · rename_i hfits
      apply trusted_of_points_at key hit
      rw [if_pos hfits] at h'
      rw [h'.mem_map_iff, ← Assoc.valueOf_isSome, Recency.valueOf_touch, Assoc.valueOf_isSome]
      exact hkey
    · rename_i hover
      rw [if_neg hover] at h'
      exact h.trusted_of_refused h' hit
  · obtain ⟨r, e', h', -, -, hit⟩ := h.insert_new value hkey
    refine ⟨r, e', ?_⟩
    split at hit
    · rename_i hfits
      apply trusted_of_points_at key hit
      rw [Recency.insertOrAssign, Recency.refuses, decide_eq_false, if_neg Bool.false_ne_true]
        at h'
      · apply (h.mem_map_front_iff h').mpr
        exact ⟨[], List.nil_prefix, by simpa using hfits⟩
      · exact fun hrefused => absurd hfits (UInt64.not_le.mpr hrefused.2)
    · rename_i hover
      rw [Recency.insertOrAssign, Recency.refuses, decide_eq_true, if_pos rfl] at h'
      · exact h.trusted_of_refused h' hit
      · exact ⟨hkey, UInt64.not_le.mp hover⟩

/-- `InsertOrAssign` can be trusted iff the key is new or the value fits in front: whether the
new value of a present key fits is asked by the eviction only.
SOURCE: LruCache.h:433-460, 484-506 -/
theorem insertOrAssign_trusted_iff (h : Represents cost c items) (key : Key) (value : Value) :
    (∃ r, c.insertOrAssign cost key value = some r ∧ Trusted c key r ∧
      ∀ it, r.it = some it → r.cache.valueAt (some it) = some value) ↔
      (key ∈ c.map → FitsInFront cost c key value) := by
  obtain ⟨r, e', h', -, -, -, hit⟩ := h.insertOrAssign key value
  unfold Recency.insertOrAssign at h'
  by_cases hrefuses : Recency.refuses cost c.maxSize items key value = true
  · rw [if_pos hrefuses] at h' hit
    have hnew : key ∉ Assoc.keys items := (of_decide_eq_true hrefuses).1
    refine iff_of_true ⟨r, e', h.trusted_of_refused h' hit, ?_⟩ fun hmem => ?_
    · intro it hsome
      rw [hit] at hsome
      cases hsome
    · exact absurd ((h.mem_map_iff key).mp hmem) hnew
  · rw [if_neg hrefuses] at h' hit
    have hfront := h.valueAt_front_iff h'
    constructor
    · rintro ⟨r', hr', -, hvalue⟩ -
      rw [e'] at hr'
      cases hr'
      exact hfront.mp (hvalue key hit)
    · intro hcondition
      have hfits : FitsInFront cost c key value := by
        by_cases hkey : key ∈ c.map
        · exact hcondition hkey
        · refine ⟨[], List.nil_prefix, ?_⟩
          have hcost : ¬ cost value > c.maxSize := by
            intro hover
            apply hrefuses
            exact decide_eq_true ⟨fun hmem => hkey ((h.mem_map_iff key).mpr hmem), hover⟩
          simpa using UInt64.not_lt.mp hcost
      refine ⟨r, e', trusted_of_points_at key hit ((h.mem_map_front_iff h').mpr hfits), ?_⟩
      intro it hsome
      rw [hit] at hsome
      cases hsome
      exact hfront.mpr hfits

end Represents

/-- **The results of an insertion can be trusted** iff the key is new or the value fits in
front of the other items: in every cache that a run of calls reaches, for every key and every
value.
SOURCE: LruCache.h:179-219, 409-543 -/
theorem insertions_trusted_iff (cost : Value → UInt64) (maxSize : UInt64)
    (calls : List (LruCache.Call Key Value)) :
    ∃ c, LruCache.run cost maxSize calls = some c ∧ ∀ key value,
      InsertionsTrusted cost c key value ↔ (key ∈ c.map → FitsInFront cost c key value) := by
  have hempty : Represents cost (LruCache.new maxSize : LruCache Key Value) [] :=
    Represents.new maxSize
  obtain ⟨c, items, hrun, h⟩ := hempty.exists_run calls
  refine ⟨c, hrun, fun key value => ?_⟩
  rw [← h.insertOrAssign_trusted_iff key value]
  constructor
  · exact fun htrusted => htrusted.insertOrAssign
  · exact fun htrusted => ⟨h.insert_trusted key value, htrusted⟩

/-- In a cache for a total of 2, the item of key 1 is assigned a value of cost 3: it is evicted,
and the iterator that is returned points to it. -/
theorem assigned_item_is_evicted :
    ∃ c : LruCache ℕ UInt64, LruCache.run sizeCost 2 [.insert 1 1] = some c ∧
      (c.insertOrAssign sizeCost 1 3).map (fun r => (r.it, r.cache.toList, r.evicted)) =
        some (some 1, [], [(1, 3)]) ∧
      ¬ InsertionsTrusted sizeCost c 1 3 := by
  refine ⟨_, rfl, by decide, ?_⟩
  rintro ⟨-, r, hr, htrusted, -⟩
  cases hr
  have hpoints := (htrusted.points_at 1 rfl).2
  revert hpoints
  decide

end OlpEdgeSdk.Analysis

import OlpEdgeSdk.Analysis.LruCacheChain
import OlpEdgeSdk.Interface.RecencyCalls

/-!
# Runs of the linked cache

Every run of calls on an empty cache keeps its buckets linked in the order in which their keys
were last touched, its size the sum of the costs and within the maximum, and every call evicts
the shortest end of the list that has to go. One kind of call breaks the order: `Insert`
compares the cost of its value with the maximum first and returns before it looks for the key,
so that a key that is present is not promoted when the value is too costly
(`insert_does_not_promote`). `runs_in_recency_order` is about the runs without such a call.
-/

set_option autoImplicit false

namespace OlpEdgeSdk.Analysis

open OlpEdgeSdk.Model OlpEdgeSdk.Base OlpEdgeSdk.Interface

variable {Key Value : Type}

/-! ## The weight of a list -/

theorem shrink_of_weight_le {cost : Value → UInt64} {maxSize : UInt64}
    {items : List (Key × Value)} (h : Recency.weight cost items ≤ maxSize.toNat) :
    Recency.shrink cost maxSize items = (items, []) := by
  apply Recency.shrink_of_le
  apply UInt64.le_iff_toNat_le.mpr
  exact (Recency.toNat_total_le_weight cost items).trans h

variable [DecidableEq Key]

theorem weight_without_le (cost : Value → UInt64) (items : List (Key × Value)) (key : Key) :
    Recency.weight cost (Assoc.without items key) ≤ Recency.weight cost items := by
  induction items with
  | nil => exact le_rfl
  | cons e items ih =>
    by_cases he : e.1 = key
    · have hskip : Assoc.without (e :: items) key = Assoc.without items key := by
        simp [Assoc.without, he]
      rw [hskip, Recency.weight_cons]
      omega
    · have hkeep : Assoc.without (e :: items) key = e :: Assoc.without items key := by
        simp [Assoc.without, he]
      rw [hkeep, Recency.weight_cons, Recency.weight_cons]
      omega

theorem weight_touch {cost : Value → UInt64} {items : List (Key × Value)}
    (hnd : (Assoc.keys items).Nodup) (key : Key) :
    Recency.weight cost (Recency.touch items key) = Recency.weight cost items := by
  unfold Recency.touch
  cases hv : Assoc.valueOf items key with
  | none => rfl
  | some value =>
    obtain ⟨l₁, l₂, rfl, -⟩ := Assoc.split_of_valueOf hv
    simp only [Assoc.put, Assoc.without_split hnd, Recency.weight_cons, Recency.weight_append]
    omega

/-- Touching the most recent key changes nothing. -/
theorem touch_of_head {items : List (Key × Value)} (hnd : (Assoc.keys items).Nodup) {key : Key}
    (h : (Assoc.keys items).head? = some key) : Recency.touch items key = items := by
  cases items with
  | nil => cases h
  | cons e items =>
    obtain rfl : e.1 = key := Option.some.inj h
    have hrest : Assoc.without ([] ++ e :: items) e.1 = [] ++ items := Assoc.without_split hnd
    rw [List.nil_append, List.nil_append] at hrest
    simp [Recency.touch, Assoc.valueOf_cons, Assoc.put, hrest]

/-! ## The calls -/

namespace Represents

variable {cost : Value → UInt64} {c : LruCache Key Value} {items : List (Key × Value)}

/-- **Insert** a new key, which is refused or linked in front.
SOURCE: LruCache.h:409-431 -/
theorem insert_new (h : Represents cost c items) {key : Key} (value : Value)
    (hkey : key ∉ Assoc.keys items) :
    ∃ r, c.insert cost key value = some r ∧
      Represents cost r.cache (Recency.insertOrAssign cost c.maxSize items key value).1 ∧
      r.evicted = (Recency.insertOrAssign cost c.maxSize items key value).2 ∧
      r.cache.maxSize = c.maxSize ∧
      r.it = if cost value ≤ c.maxSize then some key else none := by
  have hb := h.lookup_eq_none hkey
  by_cases hover : cost value > c.maxSize
  · refine ⟨⟨c, none, false, []⟩, ?_, ?_⟩
    · simp [LruCache.insert, hover]
    · simpa [Recency.insertOrAssign, Recency.refuses, hkey, hover] using h
  · obtain ⟨c', e', h', max'⟩ := h.addInternal_new value hkey
    refine ⟨⟨c', some key, true, (Recency.shrink cost c.maxSize (Assoc.put items key value)).2⟩,
      ?_, ?_⟩
    · simp [LruCache.insert, hb, hover, e']
    · simpa [Recency.insertOrAssign, Recency.refuses, hkey, hover, UInt64.not_lt.mp hover]
        using ⟨h', max'⟩

/-- **Insert** a key that is present: it is promoted, unless the value is too costly.
SOURCE: LruCache.h:409-431 -/
theorem insert_present (h : Represents cost c items) {key : Key} (value : Value)
    (hkey : key ∈ Assoc.keys items) :
    ∃ r, c.insert cost key value = some r ∧
      Represents cost r.cache
        (if cost value ≤ c.maxSize then Recency.touch items key else items) ∧
      r.evicted = [] ∧ r.cache.maxSize = c.maxSize ∧
      r.it = if cost value ≤ c.maxSize then some key else none := by
  by_cases hfits : cost value ≤ c.maxSize
  · obtain ⟨old, hv⟩ := Option.isSome_iff_exists.mp ((Assoc.valueOf_isSome items key).mpr hkey)
    obtain ⟨a, d, hsplit, -⟩ := Assoc.split_of_valueOf hv
    obtain ⟨c', e', h', max'⟩ := h.promote hv
    refine ⟨⟨c', some key, false, []⟩, ?_, ?_⟩
    · simp [LruCache.insert, UInt64.not_lt.mpr hfits, h.bucket_of_split hsplit, e']
    · simpa [hfits, Recency.touch, hv] using ⟨h', max'⟩
  · refine ⟨⟨c, none, false, []⟩, ?_, ?_⟩
    · simp [LruCache.insert, UInt64.not_le.mp hfits]
    · simpa [hfits] using h

/-- **Resize** shrinks the list to the new maximum.
SOURCE: LruCache.h:258-261 -/
theorem resize (h : Represents cost c items) (maxSize : UInt64) :
    ∃ c', c.resize cost maxSize = some (c', (Recency.shrink cost maxSize items).2) ∧
      Represents cost c' (Recency.shrink cost maxSize items).1 ∧ c'.maxSize = maxSize := by
  have hsame : Represents cost { c with maxSize := maxSize } items :=
    ⟨h.nodup, h.value, h.linked, h.first, h.last, h.size⟩
  exact hsame.evict

/-- Every call on a cache that is in order succeeds and leaves one that is in order, whatever
the costs are.
SOURCE: LruCache.h:227-316, 409-460 -/
theorem exists_call (h : Represents cost c items) (call : LruCache.Call Key Value) :
    ∃ c' evicted items', c.call cost call = some (c', evicted) ∧ Represents cost c' items' := by
  cases call with
  | insert key value =>
    by_cases hkey : key ∈ Assoc.keys items
    · obtain ⟨r, e', h', -⟩ := h.insert_present value hkey
      exact ⟨r.cache, r.evicted, _, by simp [LruCache.call, e'], h'⟩
    · obtain ⟨r, e', h', -⟩ := h.insert_new value hkey
      exact ⟨r.cache, r.evicted, _, by simp [LruCache.call, e'], h'⟩
  | insertOrAssign key value =>
    obtain ⟨r, e', h', -⟩ := h.insertOrAssign key value
    exact ⟨r.cache, r.evicted, _, by simp [LruCache.call, e'], h'⟩
  | find key =>
    obtain ⟨c', e', h', -⟩ := h.find key
    exact ⟨c', [], _, by simp [LruCache.call, e'], h'⟩
  | findNoPromote key => exact ⟨c, [], items, rfl, h⟩
  | erase key =>
    obtain ⟨c', e', h', -⟩ := h.erase key
    exact ⟨c', [], _, by simp [LruCache.call, e'], h'⟩
  | resize maxSize =>
    obtain ⟨c', e', h', -⟩ := h.resize maxSize
    exact ⟨c', _, _, e', h'⟩
  | clear => exact ⟨c.clear, [], [], rfl, Represents.clear c⟩

/-- **Run.** Every run of calls succeeds and leaves the cache in order. -/
theorem exists_run (h : Represents cost c items) (calls : List (LruCache.Call Key Value)) :
    ∃ c' items', runFrom (fun c call => (LruCache.call cost c call).map Prod.fst) c calls =
      some c' ∧ Represents cost c' items' := by
  induction calls generalizing c items with
  | nil => exact ⟨c, items, rfl, h⟩
  | cons call calls ih =>
    obtain ⟨c₁, evicted, items₁, hcall, h₁⟩ := h.exists_call call
    obtain ⟨c', items', hrun, h'⟩ := ih h₁
    exact ⟨c', items', by simp [runFrom, hcall, hrun], h'⟩

end Represents

/-! ## Steps and runs -/

/-- The linked structure stands for the list, and the list fits. -/
structure Refines (cost : Value → UInt64) (c : LruCache Key Value)
    (s : Recency.State Key Value) : Prop where
  represents : Represents cost c s.items
  maxSize : c.maxSize = s.maxSize
  fits : Recency.weight cost s.items ≤ s.maxSize.toNat

variable {cost : Value → UInt64} {c : LruCache Key Value} {s : Recency.State Key Value}

/-- **Step.** A call on the linked structure does what it does to the list. -/
theorem Refines.call (h : Refines cost c s) {call : LruCache.Call Key Value}
    (hsum : Recency.SumsFit cost s call) (hinsert : Recency.InsertsFitting cost s call) :
    ∃ c' evicted, c.call cost call = some (c', evicted) ∧
      Refines cost c' (Recency.step cost s call) ∧
      Recency.EvictsShortest cost (Recency.maxSizeAfter s call) (Recency.touched cost s call)
        c'.toList evicted := by
  have hshortest := Recency.shrink_evictsShortest (Recency.maxSizeAfter s call) hsum
  -- what has to be shown for each call: the linked structure becomes the shrunk list
  suffices hcall : ∃ c', c.call cost call = some (c', (Recency.shrink cost
      (Recency.maxSizeAfter s call) (Recency.touched cost s call)).2) ∧
      Represents cost c' (Recency.step cost s call).items ∧
      c'.maxSize = Recency.maxSizeAfter s call by
    obtain ⟨c', hcall, hrep, hmax⟩ := hcall
    refine ⟨c', _, hcall, ⟨hrep, hmax, hshortest.fits⟩, ?_⟩
    rw [hrep.toList_eq]
    exact hshortest
  obtain ⟨hrep, hmax, hfits⟩ := h
  have hsame : Recency.shrink cost s.maxSize s.items = (s.items, []) :=
    shrink_of_weight_le hfits
  have htouch : ∀ key, Recency.shrink cost s.maxSize (Recency.touch s.items key) =
      (Recency.touch s.items key, []) := by
    intro key
    apply shrink_of_weight_le
    rw [weight_touch hrep.nodup]
    exact hfits
  have hassigned : ∀ key value, Recency.insertOrAssign cost s.maxSize s.items key value =
      Recency.shrink cost s.maxSize (Recency.touched cost s (.insertOrAssign key value)) := by
    intro key value
    simp only [Recency.insertOrAssign, Recency.touched]
    split
    · exact hsame.symm
    · rfl
  cases call with
  | insert key value =>
    by_cases hkey : key ∈ Assoc.keys s.items
    · obtain ⟨r, e', h', hevicted, max', -⟩ := hrep.insert_present value hkey
      have hitems : (if cost value ≤ c.maxSize then Recency.touch s.items key else s.items) =
          Recency.touch s.items key := by
        split
        · rfl
        · rename_i hover
          cases hinsert hkey with
          | inl hle => exact absurd (hmax ▸ hle) hover
          | inr hhead => exact (touch_of_head hrep.nodup hhead).symm
      rw [hitems] at h'
      refine ⟨r.cache, ?_, ?_, max'.trans hmax⟩
      · simp [LruCache.call, e', hevicted, Recency.touched, Recency.maxSizeAfter, hkey, htouch]
      · simpa [Recency.step, Recency.touched, Recency.maxSizeAfter, hkey, htouch] using h'
    · obtain ⟨r, e', h', hevicted, max', -⟩ := hrep.insert_new value hkey
      rw [hmax] at h' hevicted
      have htouched : Recency.touched cost s (.insert key value) =
          Recency.touched cost s (.insertOrAssign key value) := if_neg hkey
      rw [hassigned, ← htouched] at h' hevicted
      exact ⟨r.cache, by simp [LruCache.call, e', hevicted, Recency.maxSizeAfter], h',
        max'.trans hmax⟩
  | insertOrAssign key value =>
    obtain ⟨r, e', h', hevicted, max', -, -⟩ := hrep.insertOrAssign key value
    rw [hmax] at h' hevicted
    rw [hassigned] at h' hevicted
    exact ⟨r.cache, by simp [LruCache.call, e', hevicted, Recency.maxSizeAfter], h',
      max'.trans hmax⟩
  | find key =>
    obtain ⟨c', e', h', max'⟩ := hrep.find key
    refine ⟨c', ?_, ?_, max'.trans hmax⟩
    · simp [LruCache.call, e', Recency.touched, Recency.maxSizeAfter, htouch]
    · simpa [Recency.step, Recency.touched, Recency.maxSizeAfter, htouch] using h'
  | findNoPromote key =>
    refine ⟨c, ?_, ?_, hmax⟩
    · simp [LruCache.call, Recency.touched, Recency.maxSizeAfter, hsame]
    · simpa [Recency.step, Recency.touched, Recency.maxSizeAfter, hsame] using hrep
  | erase key =>
    obtain ⟨c', e', h', max'⟩ := hrep.erase key
    have hwithout : Recency.shrink cost s.maxSize (Assoc.without s.items key) =
        (Assoc.without s.items key, []) :=
      shrink_of_weight_le ((weight_without_le cost s.items key).trans hfits)
    refine ⟨c', ?_, ?_, max'.trans hmax⟩
    · simp [LruCache.call, e', Recency.touched, Recency.maxSizeAfter, hwithout]
    · simpa [Recency.step, Recency.touched, Recency.maxSizeAfter, hwithout] using h'
  | resize maxSize => exact hrep.resize maxSize
  | clear =>
    have hnil : Recency.shrink cost s.maxSize ([] : List (Key × Value)) = ([], []) := rfl
    refine ⟨c.clear, ?_, ?_, hmax⟩
    · simp [LruCache.call, Recency.touched, hnil, Recency.maxSizeAfter]
    · have hclear : Represents cost c.clear [] := Represents.clear c
      simpa [Recency.step, Recency.touched, Recency.maxSizeAfter, hnil] using hclear

/-- What is asked of the calls of a run: the sums stay below `2 ^ 64`, and `Insert` brings no
value that is too costly to a key that is present behind the most recent one. -/
def CallsFit (cost : Value → UInt64) (s : Recency.State Key Value)
    (calls : List (LruCache.Call Key Value)) : Prop :=
  Along (fun s call => some (Recency.step cost s call))
    (fun s call => Recency.SumsFit cost s call ∧ Recency.InsertsFitting cost s call) s calls

/-- **Run.** A run on the linked structure does what it does to the list. -/
theorem Refines.run (h : Refines cost c s) {calls : List (LruCache.Call Key Value)}
    (hcalls : CallsFit cost s calls) :
    ∃ c', runFrom (fun c call => (LruCache.call cost c call).map Prod.fst) c calls = some c' ∧
      Refines cost c' (calls.foldl (Recency.step cost) s) := by
  induction calls generalizing c s with
  | nil => exact ⟨c, rfl, h⟩
  | cons call calls ih =>
    obtain ⟨⟨hsum, hinsert⟩, hrest⟩ := hcalls
    obtain ⟨c₁, evicted, hcall, h₁, -⟩ := h.call hsum hinsert
    obtain ⟨c', hrun, h'⟩ := ih h₁ (hrest _ rfl)
    exact ⟨c', by simp [runFrom, hcall, hrun], h'⟩

/-! ## The whole cache -/

/-- What the members of a cache look like from outside when it is in order: following `next_`
from `first_` visits every key of the map once and ends at `last_`, `previous_` is the
inverse, `size_` is the sum of the costs and within the maximum, and the items are visited in
the order of `items`. -/
structure InOrder (cost : Value → UInt64) (c : LruCache Key Value)
    (items : List (Key × Value)) : Prop where
  visited_once : c.walk.Nodup
  visited_iff : ∀ key, key ∈ c.walk ↔ key ∈ c.map
  ends_at_last : c.walk.getLast? = c.last ∧ c.nextIt c.last = none
  inverse : ∀ key other, c.nextIt (some key) = some other ↔ previousIt c other = some key
  begins_at_first : c.walk.head? = c.first ∧ ∀ key, c.first = some key → previousIt c key = none
  size_eq : c.size.toNat = Recency.weight cost c.toList
  size_le : c.size ≤ c.maxSize
  order : c.toList = items

theorem Represents.walk_eq {items : List (Key × Value)} (h : Represents cost c items) :
    c.walk = Assoc.keys items := by
  rw [LruCache.walk, h.first]
  apply h.linked.follow_eq
  rw [h.length_keys, Assoc.keys, List.length_map]

theorem Represents.mem_map_iff {items : List (Key × Value)} (h : Represents cost c items)
    (key : Key) : key ∈ c.map ↔ key ∈ Assoc.keys items := by
  rw [← Assoc.valueOf_isSome, ← h.value, ← AList.lookup_isSome]
  simp [LruCache.valueAt]

theorem Represents.mem_of_nextIt {items : List (Key × Value)} (h : Represents cost c items)
    {key other : Key} (hnext : c.nextIt (some key) = some other) :
    key ∈ Assoc.keys items ∧ other ∈ Assoc.keys items := by
  have hkey : key ∈ Assoc.keys items := by
    rw [← h.mem_map_iff, ← AList.lookup_isSome]
    cases hb : c.map.lookup key with
    | none => simp [LruCache.nextIt, hb] at hnext
    | some b => rfl
  obtain ⟨l₁, l₂, hsplit⟩ := List.append_of_mem hkey
  have hlink := (h.linked l₁ key l₂ hsplit).1
  refine ⟨hkey, ?_⟩
  rw [hsplit]
  exact List.mem_append_right _
    (List.mem_cons_of_mem _ (List.mem_of_head? (hlink.symm.trans hnext)))

theorem Represents.mem_of_previousIt {items : List (Key × Value)} (h : Represents cost c items)
    {key other : Key} (hprevious : previousIt c other = some key) :
    key ∈ Assoc.keys items ∧ other ∈ Assoc.keys items := by
  have hother : other ∈ Assoc.keys items := by
    rw [← h.mem_map_iff, ← AList.lookup_isSome]
    cases hb : c.map.lookup other with
    | none => simp [previousIt, hb] at hprevious
    | some b => rfl
  obtain ⟨l₁, l₂, hsplit⟩ := List.append_of_mem hother
  have hlink := (h.linked l₁ other l₂ hsplit).2
  refine ⟨?_, hother⟩
  rw [hsplit]
  exact List.mem_append_left _ (List.mem_of_getLast? (hlink.symm.trans hprevious))

theorem Refines.inOrder (h : Refines cost c s) : InOrder cost c s.items := by
  obtain ⟨hrep, hmax, hfits⟩ := h
  have hsmall : Recency.weight cost s.items < 2 ^ 64 :=
    hfits.trans_lt s.maxSize.toNat_lt
  have hsize : c.size.toNat = Recency.weight cost s.items := by
    rw [hrep.size]
    exact Recency.toNat_total hsmall
  refine ⟨?_, ?_, ⟨?_, ?_⟩, ?_, ⟨?_, ?_⟩, ?_, ?_, hrep.toList_eq⟩
  · rw [hrep.walk_eq]
    exact hrep.nodup
  · intro key
    rw [hrep.walk_eq, hrep.mem_map_iff]
  · rw [hrep.walk_eq, hrep.last]
  · cases hlast : c.last with
    | none => rfl
    | some key =>
      rw [hrep.last] at hlast
      obtain ⟨l, hsplit⟩ := List.getLast?_eq_some_iff.mp hlast
      exact (hrep.linked l key [] hsplit).1
  · intro key other
    constructor
    · intro hnext
      obtain ⟨hkey, hother⟩ := hrep.mem_of_nextIt hnext
      exact (hrep.linked.next_eq_some_iff hkey hother).mp hnext
    · intro hprevious
      obtain ⟨hkey, hother⟩ := hrep.mem_of_previousIt hprevious
      exact (hrep.linked.next_eq_some_iff hkey hother).mpr hprevious
  · rw [hrep.walk_eq, hrep.first]
  · intro key hfirst
    rw [hrep.first] at hfirst
    obtain ⟨l, hsplit⟩ := List.head?_eq_some_iff.mp hfirst
    exact (hrep.linked [] key l hsplit).2
  · rw [hrep.toList_eq]
    exact hsize
  · rw [UInt64.le_iff_toNat_le, hsize, hmax]
    exact hfits

/-- **Every run of calls keeps the cache in order of recency.** After a run on an empty cache
the links, the size and the order are those of the list, and every further call evicts the
shortest end of the list it has to, oldest item first: in every run whose sums stay below
`2 ^ 64` and in which `Insert` brings no value that is too costly to a key that is present
behind the most recent one.
SOURCE: LruCache.h:227-543 -/
theorem runs_in_recency_order (cost : Value → UInt64) (maxSize : UInt64)
    (calls : List (LruCache.Call Key Value)) (call : LruCache.Call Key Value)
    (hcalls : CallsFit cost ⟨[], maxSize⟩ (calls ++ [call])) :
    let s := Recency.run cost maxSize calls
    ∃ c c' evicted, LruCache.run cost maxSize calls = some c ∧ InOrder cost c s.items ∧
      c.call cost call = some (c', evicted) ∧
      InOrder cost c' (Recency.run cost maxSize (calls ++ [call])).items ∧
      Recency.EvictsShortest cost (Recency.maxSizeAfter s call) (Recency.touched cost s call)
        c'.toList evicted := by
  intro s
  have hempty : Refines cost (LruCache.new maxSize : LruCache Key Value) ⟨[], maxSize⟩ :=
    ⟨Represents.new maxSize, rfl, Nat.zero_le _⟩
  obtain ⟨hbefore, hlast⟩ := along_append.mp hcalls
  obtain ⟨c, hrun, hc⟩ := hempty.run hbefore
  obtain ⟨⟨hsum, hinsert⟩, -⟩ := hlast s (runFrom_total _ _ _)
  obtain ⟨c', evicted, hcall, hc', hshortest⟩ := hc.call hsum hinsert
  refine ⟨c, c', evicted, hrun, hc.inOrder, hcall, ?_, hshortest⟩
  have hs' : Recency.run cost maxSize (calls ++ [call]) = Recency.step cost s call := by
    simp [Recency.run, s]
  rw [hs']
  exact hc'.inOrder

/-- A cost that is never zero: the value itself, and one for zero. -/
def sizeCost (size : UInt64) : UInt64 := if size = 0 then 1 else size

/-- A lookup saves its key from the eviction that follows. -/
theorem find_saves_from_eviction :
    ∃ c c' : LruCache ℕ UInt64, ∃ evicted,
      LruCache.run sizeCost 2 [.insert 1 1, .insert 2 1, .find 1] = some c ∧
      c.toList = [(1, 1), (2, 1)] ∧ c.call sizeCost (.insert 3 1) = some (c', evicted) ∧
      c'.toList = [(3, 1), (1, 1)] ∧
      Recency.EvictsShortest sizeCost 2 [(3, 1), (1, 1), (2, 1)] c'.toList evicted := by
  have hcalls : CallsFit sizeCost ⟨[], 2⟩
      ([.insert 1 1, .insert 2 1, .find 1] ++ [.insert 3 1] : List (LruCache.Call ℕ UInt64)) := by
    simp only [CallsFit, List.cons_append, List.nil_append, along_total_cons]
    exact ⟨⟨by decide, by decide⟩, ⟨by decide, by decide⟩, ⟨by decide, by decide⟩,
      ⟨by decide, by decide⟩, trivial⟩
  obtain ⟨c, c', evicted, hrun, hc, hcall, hc', hshortest⟩ :=
    runs_in_recency_order sizeCost 2 _ _ hcalls
  exact ⟨c, c', evicted, hrun, hc.order, hcall, hc'.order, hshortest⟩

/-- `Insert` of a value that is too costly leaves the key where it is: the key that was
touched last is visited second. -/
theorem insert_does_not_promote :
    let calls : List (LruCache.Call ℕ UInt64) := [.insert 1 1, .insert 2 1, .insert 1 3]
    (∀ size, 1 ≤ sizeCost size) ∧
      Along (fun s call => some (Recency.step sizeCost s call)) (Recency.SumsFit sizeCost)
        ⟨[], 2⟩ calls ∧
      (LruCache.run sizeCost 2 calls).map LruCache.toList = some [(2, 1), (1, 1)] ∧
      (Recency.run sizeCost 2 calls).items = [(1, 1), (2, 1)] := by
  refine ⟨?_, ?_, by decide, by decide⟩
  · intro size
    unfold sizeCost
    split
    · exact UInt64.le_refl 1
    · rename_i hsize
      rw [UInt64.le_iff_toNat_le, UInt64.toNat_one]
      apply Nat.one_le_iff_ne_zero.mpr
      intro hzero
      exact hsize (UInt64.toNat_inj.mp hzero)
  · simp only [along_total_cons]
    refine ⟨by decide, by decide, by decide, trivial⟩

end OlpEdgeSdk.Analysis

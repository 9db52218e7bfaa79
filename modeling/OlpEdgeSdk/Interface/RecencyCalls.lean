import Mathlib.Algebra.Order.BigOperators.Group.List
import Mathlib.Algebra.Order.Group.Nat
import OlpEdgeSdk.Interface.Recency
import OlpEdgeSdk.Model.LruCache

/-!
# The calls of an LRU cache, on the list

What each call of the cache is for, said on the list in order of recency: it touches a key,
adds or removes an item or changes the maximum (`touched`, `maxSizeAfter`), and then the list
is shrunk to the maximum. `Insert` touches a key that is present whatever value it brings, as
its documentation says (LruCache.h:182-184).

`EvictsShortest` says what shrinking has to be: the items cut off are the shortest end of the
list whose removal makes the rest fit, handed out oldest first.
-/

set_option autoImplicit false

namespace OlpEdgeSdk.Interface.Recency

open OlpEdgeSdk.Base.Assoc
open OlpEdgeSdk.Model.LruCache (Call)

variable {Key Value : Type}

/-! ## Shrinking -/

/-- `kept` is what is left of `items` when the shortest end is cut off that makes the rest
fit, and `evicted` is that end, oldest item first. -/
structure EvictsShortest (cost : Value → UInt64) (maxSize : UInt64)
    (items kept evicted : List (Key × Value)) : Prop where
  split : items = kept ++ evicted.reverse
  fits : weight cost kept ≤ maxSize.toNat
  shortest : ∀ longer, longer <+: items → kept.length < longer.length →
    maxSize.toNat < weight cost longer

@[simp] theorem weight_nil (cost : Value → UInt64) :
    weight cost ([] : List (Key × Value)) = 0 := rfl

@[simp] theorem weight_cons (cost : Value → UInt64) (e : Key × Value)
    (items : List (Key × Value)) :
    weight cost (e :: items) = (cost e.2).toNat + weight cost items := by
  simp [weight]

@[simp] theorem weight_append (cost : Value → UInt64) (items more : List (Key × Value)) :
    weight cost (items ++ more) = weight cost items + weight cost more := by
  simp [weight]

@[simp] theorem weight_reverse (cost : Value → UInt64) (items : List (Key × Value)) :
    weight cost items.reverse = weight cost items := by
  simp [weight, List.sum_reverse]

/-- Items with different keys, whose costs are listed with their keys, weigh no more than the
list. -/
theorem weight_le_sum {cost : Value → UInt64} {items : List (Key × Value)}
    (hnd : (keys items).Nodup) {costs : List (Key × ℕ)}
    (h : ∀ e ∈ items, (e.1, (cost e.2).toNat) ∈ costs) :
    weight cost items ≤ (costs.map Prod.snd).sum := by
  let listed := items.map fun e => (e.1, (cost e.2).toNat)
  have hlisted : listed.Nodup := by
    apply List.Nodup.of_map Prod.fst
    rw [List.map_map]
    exact hnd
  have hsubset : listed ⊆ costs := by
    intro c hc
    obtain ⟨e, he, rfl⟩ := List.mem_map.mp hc
    exact h e he
  obtain ⟨chosen, hperm, hsub⟩ := List.subperm_of_subset hlisted hsubset
  have hweight : weight cost items = (listed.map Prod.snd).sum := by
    rw [List.map_map]
    rfl
  rw [hweight, ← (hperm.map Prod.snd).sum_eq]
  exact (hsub.map Prod.snd).sum_le_sum fun _ _ => Nat.zero_le _

/-- A sum that stays below `2 ^ 64` does not wrap. -/
theorem toNat_total {cost : Value → UInt64} {items : List (Key × Value)}
    (h : weight cost items < 2 ^ 64) : (total cost items).toNat = weight cost items := by
  induction items with
  | nil => rfl
  | cons e items ih =>
    rw [weight_cons] at h
    have hitems := ih (by omega)
    rw [total_cons, UInt64.toNat_add, hitems, weight_cons]
    exact Nat.mod_eq_of_lt h

/-- What the loop keeps of a list given oldest item first: it fits, and every longer end of
the list does not. -/
theorem shrinkOldest_shortest {cost : Value → UInt64} (maxSize : UInt64)
    {oldest : List (Key × Value)} (h : weight cost oldest < 2 ^ 64) :
    weight cost (shrinkOldest cost maxSize oldest).1 ≤ maxSize.toNat ∧
      ∀ longer, longer <:+ oldest → (shrinkOldest cost maxSize oldest).1.length < longer.length →
        maxSize.toNat < weight cost longer := by
  induction oldest with
  | nil =>
    refine ⟨Nat.zero_le _, fun longer hsuffix hlength => ?_⟩
    rw [List.suffix_nil.mp hsuffix] at hlength
    exact absurd hlength (Nat.not_lt_zero _)
  | cons e oldest ih =>
    have htotal := toNat_total h
    rw [weight_cons] at h
    obtain ⟨hfits, hshortest⟩ := ih (by omega)
    unfold shrinkOldest
    split
    · rename_i hover
      refine ⟨hfits, fun longer hsuffix hlength => ?_⟩
      rcases List.suffix_cons_iff.mp hsuffix with rfl | hsuffix
      · rw [← htotal]
        exact UInt64.lt_iff_toNat_lt.mp hover
      · exact hshortest longer hsuffix hlength
    · rename_i hfit
      refine ⟨?_, fun longer hsuffix hlength => ?_⟩
      · rw [← htotal]
        exact UInt64.le_iff_toNat_le.mp (UInt64.not_lt.mp hfit)
      · exact absurd hsuffix.length_le (Nat.not_le.mpr hlength)

/-- **Shrinking evicts the shortest end.** -/
theorem shrink_evictsShortest {cost : Value → UInt64} (maxSize : UInt64)
    {items : List (Key × Value)} (h : weight cost items < 2 ^ 64) :
    EvictsShortest cost maxSize items (shrink cost maxSize items).1
      (shrink cost maxSize items).2 := by
  have hreverse : weight cost items.reverse < 2 ^ 64 := by rwa [weight_reverse]
  obtain ⟨hfits, hshortest⟩ := shrinkOldest_shortest maxSize hreverse
  refine ⟨(shrink_append cost maxSize items).symm, ?_, fun longer hpre hlength => ?_⟩
  · rw [shrink, weight_reverse]
    exact hfits
  · have hlonger := hshortest longer.reverse (List.reverse_suffix.mpr hpre)
      (by simpa [shrink] using hlength)
    rwa [weight_reverse] at hlonger

/-! ## Calls -/

/-- The list and the maximum size. -/
structure State (Key Value : Type) where
  items : List (Key × Value)
  maxSize : UInt64

variable [DecidableEq Key]

/-- The list a call leaves before anything is evicted. -/
def touched (cost : Value → UInt64) (s : State Key Value) :
    Call Key Value → List (Key × Value)
  | .insert key value =>
    if key ∈ keys s.items then touch s.items key
    else if refuses cost s.maxSize s.items key value then s.items
    else put s.items key value
  | .insertOrAssign key value =>
    if refuses cost s.maxSize s.items key value then s.items
    else put s.items key value
  | .find key => touch s.items key
  | .findNoPromote _ => s.items
  | .erase key => without s.items key
  | .resize _ => s.items
  | .clear => []

/-- The maximum after a call. -/
def maxSizeAfter (s : State Key Value) : Call Key Value → UInt64
  | .resize maxSize => maxSize
  | _ => s.maxSize

/-- The list after a call, shrunk to the maximum. -/
def step (cost : Value → UInt64) (s : State Key Value) (call : Call Key Value) :
    State Key Value :=
  ⟨(shrink cost (maxSizeAfter s call) (touched cost s call)).1, maxSizeAfter s call⟩

/-- The list after a run of calls on an empty one. -/
def run (cost : Value → UInt64) (maxSize : UInt64) (calls : List (Call Key Value)) :
    State Key Value :=
  calls.foldl (step cost) ⟨[], maxSize⟩

/-- The costs of the items with the one a call brings have a sum below `2 ^ 64`. -/
def SumsFit (cost : Value → UInt64) (s : State Key Value) (call : Call Key Value) : Prop :=
  weight cost (touched cost s call) < 2 ^ 64

instance (cost : Value → UInt64) (s : State Key Value) (call : Call Key Value) :
    Decidable (SumsFit cost s call) :=
  inferInstanceAs (Decidable (_ < _))

/-- `Insert` brings no value that is too costly for the cache to a key that is present,
unless it is the most recent one anyway. -/
def InsertsFitting (cost : Value → UInt64) (s : State Key Value) : Call Key Value → Prop
  | .insert key value => key ∈ keys s.items → cost value ≤ s.maxSize ∨
      (keys s.items).head? = some key
  | _ => True

instance (cost : Value → UInt64) (s : State Key Value) (call : Call Key Value) :
    Decidable (InsertsFitting cost s call) :=
  match call with
  | .insert _ _ => inferInstanceAs (Decidable (_ → _))
  | .insertOrAssign _ _ => isTrue trivial
  | .find _ => isTrue trivial
  | .findNoPromote _ => isTrue trivial
  | .erase _ => isTrue trivial
  | .resize _ => isTrue trivial
  | .clear => isTrue trivial

end OlpEdgeSdk.Interface.Recency

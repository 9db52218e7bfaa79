import Mathlib.Data.UInt
import Mathlib.Algebra.BigOperators.Group.List.Basic
import Mathlib.Tactic.Abel
import OlpEdgeSdk.Base.Assoc

/-!
# What an LRU cache is for: a list in order of recency

The cache is, seen from outside, a list of items with pairwise different keys, the most
recently touched one first. Touching a key moves its item to the front, and shrinking
drops items from the back until the sum of the costs fits.

This is the statement of purpose the linked structure is compared with; nothing here is
translated from the source.
-/

set_option autoImplicit false

namespace OlpEdgeSdk.Interface.Recency

open OlpEdgeSdk.Base.Assoc

variable {Key Value : Type}

/-- The sum of the costs, in the arithmetic of `std::size_t`. -/
def total (cost : Value → UInt64) (items : List (Key × Value)) : UInt64 :=
  (items.map fun e => cost e.2).sum

/-- Drop items from the front of a list, oldest first, until the rest fits. -/
def shrinkOldest (cost : Value → UInt64) (maxSize : UInt64) :
    List (Key × Value) → List (Key × Value) × List (Key × Value)
  | [] => ([], [])
  | e :: oldest =>
    if total cost (e :: oldest) > maxSize then
      ((shrinkOldest cost maxSize oldest).1, e :: (shrinkOldest cost maxSize oldest).2)
    else (e :: oldest, [])

/-- The items that stay when the cache is shrunk to `maxSize`, and the dropped ones in the
order in which they are dropped. -/
def shrink (cost : Value → UInt64) (maxSize : UInt64) (items : List (Key × Value)) :
    List (Key × Value) × List (Key × Value) :=
  ((shrinkOldest cost maxSize items.reverse).1.reverse,
    (shrinkOldest cost maxSize items.reverse).2)

@[simp] theorem total_nil (cost : Value → UInt64) :
    total cost ([] : List (Key × Value)) = 0 := rfl

@[simp] theorem total_cons (cost : Value → UInt64) (e : Key × Value)
    (items : List (Key × Value)) : total cost (e :: items) = cost e.2 + total cost items := by
  simp [total]

@[simp] theorem total_append (cost : Value → UInt64) (items more : List (Key × Value)) :
    total cost (items ++ more) = total cost items + total cost more := by
  simp [total]

@[simp] theorem total_reverse (cost : Value → UInt64) (items : List (Key × Value)) :
    total cost items.reverse = total cost items := by
  induction items with
  | nil => rfl
  | cons e items ih =>
    rw [List.reverse_cons, total_append, ih, total_cons, total_cons, total_nil, add_zero,
      add_comm]

theorem shrinkOldest_append (cost : Value → UInt64) (maxSize : UInt64)
    (oldest : List (Key × Value)) :
    (shrinkOldest cost maxSize oldest).2 ++ (shrinkOldest cost maxSize oldest).1 = oldest := by
  induction oldest with
  | nil => rfl
  | cons e oldest ih =>
    unfold shrinkOldest
    split
    · simp [ih]
    · simp

/-- **Shrinking cuts a suffix off**: the kept items, followed by the dropped ones read
backwards, are the items before. -/
theorem shrink_append (cost : Value → UInt64) (maxSize : UInt64) (items : List (Key × Value)) :
    (shrink cost maxSize items).1 ++ (shrink cost maxSize items).2.reverse = items := by
  have h := congrArg List.reverse (shrinkOldest_append cost maxSize items.reverse)
  simpa [shrink] using h

theorem shrink_of_le {cost : Value → UInt64} {maxSize : UInt64} {items : List (Key × Value)}
    (h : total cost items ≤ maxSize) : shrink cost maxSize items = (items, []) := by
  have hold : shrinkOldest cost maxSize items.reverse = (items.reverse, []) := by
    have hrev : total cost items.reverse ≤ maxSize := by rwa [total_reverse]
    cases hr : items.reverse with
    | nil => rfl
    | cons e oldest =>
      rw [hr] at hrev
      unfold shrinkOldest
      rw [if_neg (UInt64.not_lt.mpr hrev)]
  simp [shrink, hold]

theorem total_shrink_le (cost : Value → UInt64) (maxSize : UInt64)
    (items : List (Key × Value)) : total cost (shrink cost maxSize items).1 ≤ maxSize := by
  have hold : ∀ oldest : List (Key × Value),
      total cost (shrinkOldest cost maxSize oldest).1 ≤ maxSize := by
    intro oldest
    induction oldest with
    | nil => exact UInt64.le_iff_toNat_le.mpr (Nat.zero_le _)
    | cons e oldest ih =>
      rw [shrinkOldest]
      split
      · exact ih
      · rename_i hfits
        exact UInt64.not_lt.mp hfits
  rw [shrink, total_reverse]
  exact hold items.reverse

/-- Shrinking keeps every front part that fits. -/
theorem isPrefix_shrink {cost : Value → UInt64} {maxSize : UInt64} {kept items : List (Key × Value)}
    (hkept : kept <+: items) (hfits : total cost kept ≤ maxSize) :
    kept <+: (shrink cost maxSize items).1 := by
  have hold : ∀ {kept oldest : List (Key × Value)}, kept <:+ oldest →
      total cost kept ≤ maxSize → kept <:+ (shrinkOldest cost maxSize oldest).1 := by
    intro kept oldest hsuffix hle
    induction oldest with
    | nil => exact hsuffix
    | cons e oldest ih =>
      rw [shrinkOldest]
      split
      · rename_i hover
        apply ih
        cases List.suffix_cons_iff.mp hsuffix with
        | inl heq =>
          rw [← heq] at hover
          exact absurd hle (UInt64.not_le.mpr hover)
        | inr hrest => exact hrest
      · exact hsuffix
  have hback := hold (List.reverse_suffix.mpr hkept) ((total_reverse cost kept).trans_le hfits)
  rw [← List.reverse_suffix, shrink, List.reverse_reverse]
  exact hback

/-- The front of a list stays iff it fits together with some of the items that follow it. -/
theorem mem_shrink_cons_iff {cost : Value → UInt64} {maxSize : UInt64} {e : Key × Value}
    {items : List (Key × Value)} : e ∈ (shrink cost maxSize (e :: items)).1 ↔
      ∃ rest, rest <+: items ∧ cost e.2 + total cost rest ≤ maxSize := by
  have happend := shrink_append cost maxSize (e :: items)
  constructor
  · intro hmem
    obtain ⟨front, rest, hkept⟩ : ∃ front rest,
        (shrink cost maxSize (e :: items)).1 = front :: rest :=
      List.exists_cons_of_ne_nil (List.ne_nil_of_mem hmem)
    rw [hkept] at happend
    obtain ⟨rfl, hrest⟩ := List.cons.inj happend
    have hfits := total_shrink_le cost maxSize (front :: items)
    rw [hkept, total_cons] at hfits
    exact ⟨rest, ⟨_, hrest⟩, hfits⟩
  · rintro ⟨rest, hrest, hfits⟩
    rw [← total_cons] at hfits
    have hfront := isPrefix_shrink (List.cons_prefix_cons.mpr ⟨rfl, hrest⟩) hfits
    exact hfront.subset List.mem_cons_self

/-- The sum of the costs as a number. -/
def weight (cost : Value → UInt64) (items : List (Key × Value)) : ℕ :=
  (items.map fun e => (cost e.2).toNat).sum

theorem toNat_total_le_weight (cost : Value → UInt64) (items : List (Key × Value)) :
    (total cost items).toNat ≤ weight cost items := by
  induction items with
  | nil => rfl
  | cons e items ih =>
    rw [total_cons, UInt64.toNat_add]
    calc ((cost e.2).toNat + (total cost items).toNat) % 2 ^ 64
        ≤ (cost e.2).toNat + (total cost items).toNat := Nat.mod_le _ _
      _ ≤ (cost e.2).toNat + weight cost items := Nat.add_le_add_left ih _
      _ = weight cost (e :: items) := by simp [weight]

variable [DecidableEq Key]

/-- Move the item of a key to the front. -/
def touch (items : List (Key × Value)) (key : Key) : List (Key × Value) :=
  match valueOf items key with
  | none => items
  | some value => put items key value

/-- A new item that does not fit in the empty cache is refused. -/
def refuses (cost : Value → UInt64) (maxSize : UInt64) (items : List (Key × Value))
    (key : Key) (value : Value) : Bool :=
  decide (key ∉ keys items ∧ cost value > maxSize)

/-- The items after an insertion or assignment, and the items dropped for it. -/
def insertOrAssign (cost : Value → UInt64) (maxSize : UInt64) (items : List (Key × Value))
    (key : Key) (value : Value) : List (Key × Value) × List (Key × Value) :=
  if refuses cost maxSize items key value then (items, [])
  else shrink cost maxSize (put items key value)

/-- What fits is neither refused nor paid for with an eviction. -/
theorem insertOrAssign_of_weight_le {cost : Value → UInt64} {maxSize : UInt64}
    {items : List (Key × Value)} {key : Key} {value : Value}
    (h : weight cost (put items key value) ≤ maxSize.toNat) :
    insertOrAssign cost maxSize items key value = (put items key value, []) := by
  have htotal : total cost (put items key value) ≤ maxSize :=
    UInt64.le_iff_toNat_le.mpr ((toNat_total_le_weight _ _).trans h)
  have hcost : cost value ≤ maxSize := by
    refine UInt64.le_iff_toNat_le.mpr (le_trans ?_ h)
    simp [weight, put]
  have hrefuses : refuses cost maxSize items key value = false := by
    simp [refuses, hcost]
  rw [insertOrAssign, hrefuses]
  exact shrink_of_le htotal

@[simp] theorem valueOf_touch (items : List (Key × Value)) (key other : Key) :
    valueOf (touch items key) other = valueOf items other := by
  unfold touch
  cases h : valueOf items key with
  | none => rfl
  | some value => exact valueOf_put_of_valueOf h other

theorem total_without {cost : Value → UInt64} {items : List (Key × Value)}
    (hnd : (keys items).Nodup) {key : Key} {value : Value}
    (h : valueOf items key = some value) :
    total cost (without items key) = total cost items - cost value := by
  obtain ⟨l₁, l₂, rfl, -⟩ := split_of_valueOf h
  rw [without_split hnd]
  simp only [total_append, total_cons]
  abel

theorem total_put {cost : Value → UInt64} {items : List (Key × Value)}
    (hnd : (keys items).Nodup) {key : Key} {old : Value} (h : valueOf items key = some old)
    (value : Value) :
    total cost (put items key value) = total cost items + (cost value - cost old) := by
  rw [put, total_cons, total_without hnd h]
  abel

/-- A key keeps its value when the list is shrunk, or loses it to eviction. -/
theorem valueOf_shrink (cost : Value → UInt64) (maxSize : UInt64)
    (items : List (Key × Value)) (key : Key) :
    valueOf (shrink cost maxSize items).1 key = valueOf items key ∨
      valueOf (shrink cost maxSize items).1 key = none := by
  cases h : valueOf (shrink cost maxSize items).1 key with
  | none => exact Or.inr rfl
  | some value =>
    left
    rw [← shrink_append cost maxSize items, valueOf_append, h]
    rfl

/-- A key keeps its value unless it is dropped. -/
theorem valueOf_shrink_eq {cost : Value → UInt64} {maxSize : UInt64}
    {items : List (Key × Value)} (hnd : (keys items).Nodup) (key : Key) :
    valueOf (shrink cost maxSize items).1 key =
      if key ∈ keys (shrink cost maxSize items).2 then none else valueOf items key := by
  have happend := shrink_append cost maxSize items
  have hkeys : keys (shrink cost maxSize items).2.reverse =
      (keys (shrink cost maxSize items).2).reverse := List.map_reverse
  rw [← happend, keys_append, List.nodup_append, hkeys] at hnd
  split
  · rename_i hdropped
    rw [valueOf_eq_none]
    intro hkept
    exact hnd.2.2 key hkept key (List.mem_reverse.mpr hdropped) rfl
  · rename_i hkept
    have hnone : valueOf (shrink cost maxSize items).2.reverse key = none := by
      rw [valueOf_eq_none, hkeys, List.mem_reverse]
      exact hkept
    have hvalue := congrArg (fun items => valueOf items key) happend
    simpa [valueOf_append, hnone] using hvalue

/-- The front of a list is not dropped if it fits on its own. -/
theorem notMem_shrink_of_front {cost : Value → UInt64} {maxSize : UInt64}
    {items : List (Key × Value)} (e : Key × Value) (hnd : (keys (e :: items)).Nodup)
    (hfits : cost e.2 ≤ maxSize) : e.1 ∉ keys (shrink cost maxSize (e :: items)).2 := by
  have hfront : e ∈ (shrink cost maxSize (e :: items)).1 :=
    mem_shrink_cons_iff.mpr ⟨[], List.nil_prefix, by simpa using hfits⟩
  have hkept : e.1 ∈ keys (shrink cost maxSize (e :: items)).1 := List.mem_map_of_mem hfront
  intro hmem
  rw [← valueOf_isSome, valueOf_shrink_eq hnd, if_pos hmem] at hkept
  cases hkept

/-- An insertion or assignment gives its key the value; another key keeps at most what it
had. -/
theorem valueOf_insertOrAssign {cost : Value → UInt64} {maxSize : UInt64}
    {items : List (Key × Value)} {key other : Key} {value v : Value}
    (h : valueOf (insertOrAssign cost maxSize items key value).1 other = some v) :
    (key = other ∧ v = value) ∨ (key ≠ other ∧ valueOf items other = some v) := by
  unfold insertOrAssign at h
  split at h
  · rename_i hrefused
    have hnot : valueOf items key = none := by
      rw [valueOf_eq_none]
      exact (of_decide_eq_true hrefused).1
    refine Or.inr ⟨fun heq => ?_, h⟩
    rw [← heq, hnot] at h
    cases h
  · rcases valueOf_shrink cost maxSize (put items key value) other with hkept | hlost
    · rw [hkept, valueOf_put] at h
      split at h
      · rename_i heq
        exact Or.inl ⟨heq, (Option.some.inj h).symm⟩
      · rename_i hne
        exact Or.inr ⟨hne, h⟩
    · rw [hlost] at h
      cases h

end OlpEdgeSdk.Interface.Recency

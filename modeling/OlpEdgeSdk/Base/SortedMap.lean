import Mathlib.Order.Basic
import Mathlib.Data.List.Sort
import OlpEdgeSdk.Base.Assoc

/-!
# Maps that are iterated in key order

A finite map over a linearly ordered key type, kept as the list of its entries in strictly
increasing key order. The order is a field of the structure, so that a map out of order
cannot be built; `find_insert` and `find_erase` are what a user needs to know about values
and `entries` is what an iterator visits.
-/

set_option autoImplicit false

namespace OlpEdgeSdk.Base

/-- A map whose entries are listed in strictly increasing key order. -/
structure SortedMap (K V : Type) [LinearOrder K] where
  entries : List (K × V)
  sorted : (Assoc.keys entries).Pairwise (· < ·)

namespace SortedMap

variable {K V : Type} [LinearOrder K]

/-- The map without entries. -/
def empty : SortedMap K V := ⟨[], List.Pairwise.nil⟩

/-- The value stored under a key. -/
def find (m : SortedMap K V) (key : K) : Option V := Assoc.valueOf m.entries key

/-- Put a pair in its place in an ordered list of pairs. -/
def insertEntry (key : K) (value : V) : List (K × V) → List (K × V)
  | [] => [(key, value)]
  | e :: entries =>
    if key < e.1 then (key, value) :: e :: entries
    else if key = e.1 then (key, value) :: entries
    else e :: insertEntry key value entries

theorem mem_keys_insertEntry (key : K) (value : V) (entries : List (K × V)) (other : K) :
    other ∈ Assoc.keys (insertEntry key value entries) ↔
      other = key ∨ other ∈ Assoc.keys entries := by
  induction entries with
  | nil => simp [insertEntry]
  | cons e entries ih =>
    unfold insertEntry
    split
    · simp
    · split
      · next heq => simp [heq]
      · simp [ih, or_left_comm]

theorem sorted_insertEntry (key : K) (value : V) {entries : List (K × V)}
    (h : (Assoc.keys entries).Pairwise (· < ·)) :
    (Assoc.keys (insertEntry key value entries)).Pairwise (· < ·) := by
  induction entries with
  | nil => simp [insertEntry]
  | cons e entries ih =>
    rw [Assoc.keys_cons, List.pairwise_cons] at h
    unfold insertEntry
    split
    · next hlt =>
      simp only [Assoc.keys_cons, List.pairwise_cons, List.mem_cons, forall_eq_or_imp]
      exact ⟨⟨hlt, fun j hj => hlt.trans (h.1 j hj)⟩, h⟩
    · next hlt =>
      split
      · next heq =>
        rw [Assoc.keys_cons, List.pairwise_cons, heq]
        exact h
      · next hne =>
        rw [Assoc.keys_cons, List.pairwise_cons]
        refine ⟨fun j hj => ?_, ih h.2⟩
        rcases (mem_keys_insertEntry key value entries j).mp hj with rfl | hj
        · exact lt_of_le_of_ne (not_lt.mp hlt) (Ne.symm hne)
        · exact h.1 j hj

theorem valueOf_insertEntry (key : K) (value : V) {entries : List (K × V)}
    (h : (Assoc.keys entries).Pairwise (· < ·)) (other : K) :
    Assoc.valueOf (insertEntry key value entries) other =
      if other = key then some value else Assoc.valueOf entries other := by
  induction entries with
  | nil => simp [insertEntry, Assoc.valueOf_cons, eq_comm]
  | cons e entries ih =>
    rw [Assoc.keys_cons, List.pairwise_cons] at h
    unfold insertEntry
    split
    · rw [Assoc.valueOf_cons]
      simp [eq_comm]
    · split
      · next heq =>
        rw [Assoc.valueOf_cons, Assoc.valueOf_cons, ← heq]
        by_cases hk : other = key
        · simp [hk]
        · simp [hk, Ne.symm hk]
      · next hne =>
        rw [Assoc.valueOf_cons, Assoc.valueOf_cons, ih h.2]
        by_cases he : e.1 = other
        · have hko : other ≠ key := fun hk => hne (hk.symm.trans he.symm)
          simp [he, hko]
        · simp [he]

/-- Store a value under a key. -/
def insert (m : SortedMap K V) (key : K) (value : V) : SortedMap K V :=
  ⟨insertEntry key value m.entries, sorted_insertEntry key value m.sorted⟩

/-- Keep the entries whose key passes a test. -/
def filterKeys (m : SortedMap K V) (p : K → Bool) : SortedMap K V where
  entries := m.entries.filter fun e => p e.1
  sorted := by
    have hkeys : Assoc.keys (m.entries.filter fun e => p e.1) =
        (Assoc.keys m.entries).filter p := by
      rw [Assoc.keys, Assoc.keys, List.filter_map]
      rfl
    rw [hkeys]
    exact m.sorted.filter p

/-- Remove a key. -/
def erase (m : SortedMap K V) (key : K) : SortedMap K V := m.filterKeys fun k => k ≠ key

/-- Remove several keys, one after the other. -/
def eraseAll (m : SortedMap K V) (ks : List K) : SortedMap K V := ks.foldl erase m

@[ext] theorem ext {m m' : SortedMap K V} (h : m.entries = m'.entries) : m = m' := by
  cases m
  cases m'
  congr

@[simp] theorem find_empty (key : K) : (empty : SortedMap K V).find key = none := rfl

theorem find_insert (m : SortedMap K V) (key : K) (value : V) (other : K) :
    (m.insert key value).find other = if other = key then some value else m.find other :=
  valueOf_insertEntry key value m.sorted other

@[simp] theorem find_insert_self (m : SortedMap K V) (key : K) (value : V) :
    (m.insert key value).find key = some value := by
  rw [find_insert, if_pos rfl]

theorem find_filterKeys (m : SortedMap K V) (p : K → Bool) (key : K) :
    (m.filterKeys p).find key = if p key then m.find key else none :=
  Assoc.valueOf_filter m.entries p key

theorem find_erase (m : SortedMap K V) (key other : K) :
    (m.erase key).find other = if other = key then none else m.find other := by
  rw [erase, find_filterKeys]
  by_cases h : other = key <;> simp [h]

/-- Removing keys one after the other is removing them at once. -/
theorem eraseAll_eq_filterKeys (m : SortedMap K V) (ks : List K) :
    m.eraseAll ks = m.filterKeys fun k => k ∉ ks := by
  induction ks generalizing m with
  | nil =>
    ext1
    simp [eraseAll, filterKeys]
  | cons key ks ih =>
    rw [eraseAll, List.foldl_cons, ← eraseAll, ih]
    ext1
    simp only [filterKeys, erase, List.filter_filter, List.mem_cons, not_or]
    congr 1
    funext e
    simp [Bool.and_comm]

theorem mem_of_find {m : SortedMap K V} {key : K} {value : V} (h : m.find key = some value) :
    (key, value) ∈ m.entries := by
  obtain ⟨l₁, l₂, hsplit, -⟩ := Assoc.split_of_valueOf h
  rw [hsplit]
  simp

theorem find_of_mem {m : SortedMap K V} {e : K × V} (h : e ∈ m.entries) :
    m.find e.1 = some e.2 :=
  Assoc.valueOf_of_mem (m.sorted.imp ne_of_lt) h

theorem mem_entries {m : SortedMap K V} {e : K × V} : e ∈ m.entries ↔ m.find e.1 = some e.2 :=
  ⟨find_of_mem, mem_of_find⟩

theorem mem_keys {m : SortedMap K V} {key : K} :
    key ∈ Assoc.keys m.entries ↔ ∃ value, m.find key = some value := by
  constructor
  · intro h
    obtain ⟨e, he, rfl⟩ := List.mem_map.mp h
    exact ⟨e.2, find_of_mem he⟩
  · rintro ⟨value, h⟩
    exact List.mem_map_of_mem (mem_of_find h)

theorem nodup_entries (m : SortedMap K V) : m.entries.Nodup :=
  List.Nodup.of_map Prod.fst (m.sorted.imp ne_of_lt)

theorem erase_of_find_none {m : SortedMap K V} {key : K} (h : m.find key = none) :
    m.erase key = m := by
  have hall : ∀ e ∈ m.entries, decide (e.1 ≠ key) = true := by
    intro e he
    refine decide_eq_true fun heq => ?_
    have hfind := find_of_mem he
    rw [heq, h] at hfind
    cases hfind
  exact ext (List.filter_eq_self.mpr hall)

/-- A map whose lookups are those of another one with one more key lists that key and the
entries of the other one. -/
theorem perm_cons {m m' : SortedMap K V} {key : K} {value : V} (hnone : m.find key = none)
    (hfind : ∀ other, m'.find other = if other = key then some value else m.find other) :
    m'.entries.Perm ((key, value) :: m.entries) := by
  have hnotMem : (key, value) ∉ m.entries := by
    rw [mem_entries, hnone]
    exact fun h => nomatch h
  refine (List.perm_ext_iff_of_nodup m'.nodup_entries
    (List.nodup_cons.mpr ⟨hnotMem, m.nodup_entries⟩)).mpr fun e => ?_
  rw [mem_entries, hfind, List.mem_cons, mem_entries]
  by_cases heq : e.1 = key
  · rw [if_pos heq]
    constructor
    · intro hvalue
      exact Or.inl (Prod.ext heq (Option.some.inj hvalue).symm)
    · rintro (rfl | hmem)
      · rfl
      · rw [heq, hnone] at hmem
        cases hmem
  · rw [if_neg heq]
    constructor
    · exact Or.inr
    · rintro (rfl | hmem)
      · exact absurd rfl heq
      · exact hmem

theorem entries_perm_of_find {m : SortedMap K V} {key : K} {value : V}
    (h : m.find key = some value) : m.entries.Perm ((key, value) :: (m.erase key).entries) := by
  refine perm_cons (by simp [find_erase]) fun other => ?_
  rw [find_erase]
  split
  · rename_i heq
    rw [heq, h]
  · rfl

theorem entries_insert_perm (m : SortedMap K V) (key : K) (value : V) :
    (m.insert key value).entries.Perm ((key, value) :: (m.erase key).entries) := by
  refine perm_cons (by simp [find_erase]) fun other => ?_
  rw [find_insert, find_erase]
  split <;> rfl

end SortedMap

end OlpEdgeSdk.Base

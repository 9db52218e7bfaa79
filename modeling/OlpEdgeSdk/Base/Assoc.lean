import Mathlib.Data.List.Nodup
import Mathlib.Data.List.Lemmas

/-!
# Lists of key-value pairs

A list of pairs in which a key is looked up from the front. The functions keep the order
of the list, which is what the users of this file care about beyond the values: `put`
moves a key to the front, `without` removes it in place.
-/

set_option autoImplicit false

namespace OlpEdgeSdk.Base.Assoc

variable {Key Value : Type}

/-- The keys, in the order of the list. -/
def keys (items : List (Key × Value)) : List Key := items.map Prod.fst

@[simp] theorem keys_nil : keys ([] : List (Key × Value)) = [] := rfl

@[simp] theorem keys_cons (e : Key × Value) (items : List (Key × Value)) :
    keys (e :: items) = e.1 :: keys items := rfl

@[simp] theorem keys_append (items more : List (Key × Value)) :
    keys (items ++ more) = keys items ++ keys more := by
  simp [keys]

variable [DecidableEq Key]

/-- The value stored under a key. -/
def valueOf (items : List (Key × Value)) (key : Key) : Option Value :=
  items.lookup key

/-- The items of all other keys. -/
def without (items : List (Key × Value)) (key : Key) : List (Key × Value) :=
  items.filter fun e => e.1 ≠ key

/-- Put an item in front, replacing what was stored under its key. -/
def put (items : List (Key × Value)) (key : Key) (value : Value) : List (Key × Value) :=
  (key, value) :: without items key

@[simp] theorem valueOf_nil (key : Key) : valueOf ([] : List (Key × Value)) key = none := rfl

theorem valueOf_cons (e : Key × Value) (items : List (Key × Value)) (key : Key) :
    valueOf (e :: items) key = if e.1 = key then some e.2 else valueOf items key := by
  rw [valueOf, List.lookup_cons]
  by_cases h : e.1 = key
  · simp [h]
  · simp [h, valueOf, beq_false_of_ne (Ne.symm h)]

theorem valueOf_append (items more : List (Key × Value)) (key : Key) :
    valueOf (items ++ more) key = (valueOf items key).or (valueOf more key) :=
  List.lookup_append

theorem valueOf_isSome (items : List (Key × Value)) (key : Key) :
    (valueOf items key).isSome ↔ key ∈ keys items := by
  induction items with
  | nil => simp
  | cons e items ih =>
    rw [valueOf_cons]
    by_cases h : e.1 = key
    · simp [h]
    · simp [h, ih, Ne.symm h]

theorem mem_keys_of_valueOf {items : List (Key × Value)} {key : Key} {value : Value}
    (h : valueOf items key = some value) : key ∈ keys items := by
  rw [← valueOf_isSome, h]
  rfl

theorem valueOf_eq_none (items : List (Key × Value)) (key : Key) :
    valueOf items key = none ↔ key ∉ keys items := by
  rw [← valueOf_isSome, Bool.not_eq_true, Option.isSome_eq_false_iff, Option.isNone_iff_eq_none]

theorem valueOf_of_mem {items : List (Key × Value)} (hnd : (keys items).Nodup)
    {e : Key × Value} (h : e ∈ items) : valueOf items e.1 = some e.2 := by
  induction items with
  | nil => simp at h
  | cons d items ih =>
    rw [keys_cons, List.nodup_cons] at hnd
    rw [valueOf_cons]
    rcases List.mem_cons.mp h with rfl | h
    · simp
    · have hne : d.1 ≠ e.1 := by
        intro heq
        exact hnd.1 (heq ▸ List.mem_map_of_mem h)
      rw [if_neg hne, ih hnd.2 h]

/-- A listed key splits the list at its item. -/
theorem split_of_valueOf {items : List (Key × Value)} {key : Key} {value : Value}
    (h : valueOf items key = some value) :
    ∃ l₁ l₂, items = l₁ ++ (key, value) :: l₂ ∧ key ∉ keys l₁ := by
  obtain ⟨l₁, l₂, hsplit, hl₁⟩ := List.lookup_eq_some_iff.mp h
  refine ⟨l₁, l₂, hsplit, ?_⟩
  rw [keys, List.mem_map]
  rintro ⟨e, he, rfl⟩
  simpa using hl₁ e he

@[simp] theorem valueOf_without_self (items : List (Key × Value)) (key : Key) :
    valueOf (without items key) key = none := by
  rw [valueOf_eq_none]
  simp [without, keys]

theorem valueOf_filter (items : List (Key × Value)) (p : Key → Bool) (key : Key) :
    valueOf (items.filter fun e => p e.1) key = if p key then valueOf items key else none := by
  induction items with
  | nil => simp
  | cons e items ih =>
    by_cases he : p e.1
    · rw [List.filter_cons, if_pos he, valueOf_cons, valueOf_cons, ih]
      by_cases hk : e.1 = key
      · simp [← hk, he]
      · simp [hk]
    · rw [List.filter_cons, if_neg he, ih, valueOf_cons]
      by_cases hk : e.1 = key
      · simp [← hk, he]
      · simp [hk]

theorem valueOf_without_ne (items : List (Key × Value)) {key other : Key} (h : other ≠ key) :
    valueOf (without items key) other = valueOf items other := by
  rw [without, valueOf_filter items (fun k => k ≠ key)]
  simp [h]

theorem valueOf_put (items : List (Key × Value)) (key : Key) (value : Value) (other : Key) :
    valueOf (put items key value) other =
      if key = other then some value else valueOf items other := by
  rw [put, valueOf_cons]
  by_cases h : key = other
  · simp [h]
  · simp [h, valueOf_without_ne items (Ne.symm h)]

theorem valueOf_put_of_valueOf {items : List (Key × Value)} {key : Key} {value : Value}
    (h : valueOf items key = some value) (other : Key) :
    valueOf (put items key value) other = valueOf items other := by
  rw [valueOf_put]
  split
  · next heq => rw [← heq, h]
  · rfl

theorem without_of_notMem {items : List (Key × Value)} {key : Key} (h : key ∉ keys items) :
    without items key = items := by
  rw [without, List.filter_eq_self]
  intro e he
  have hne : e.1 ≠ key := fun heq => h (heq ▸ List.mem_map_of_mem he)
  simpa using hne

theorem keys_without (items : List (Key × Value)) (key : Key) :
    keys (without items key) = (keys items).filter fun k => k ≠ key := by
  rw [keys, without, keys, List.filter_map]
  rfl

theorem nodup_put {items : List (Key × Value)} (hnd : (keys items).Nodup) (key : Key)
    (value : Value) : (keys (put items key value)).Nodup := by
  rw [put, keys_cons, keys_without, List.nodup_cons]
  refine ⟨?_, hnd.filter _⟩
  simp

theorem without_split {l₁ l₂ : List (Key × Value)} {key : Key} {value : Value}
    (hnd : (keys (l₁ ++ (key, value) :: l₂)).Nodup) :
    without (l₁ ++ (key, value) :: l₂) key = l₁ ++ l₂ := by
  rw [keys_append, keys_cons, List.nodup_append, List.nodup_cons] at hnd
  obtain ⟨-, ⟨h₂, -⟩, hdis⟩ := hnd
  have h₁ : key ∉ keys l₁ := fun h => hdis key h key (by simp) rfl
  have hw₁ : l₁.filter (fun e => e.1 ≠ key) = l₁ := without_of_notMem h₁
  have hw₂ : l₂.filter (fun e => e.1 ≠ key) = l₂ := without_of_notMem h₂
  rw [without, List.filter_append, hw₁, List.filter_cons_of_neg (by simp), hw₂]

/-- The first element that satisfies a predicate, and the list without it. -/
theorem perm_of_find? {α : Type} {l : List α} {p : α → Bool} {a : α} (h : l.find? p = some a) :
    l.Perm (a :: l.eraseP p) := by
  induction l with
  | nil => cases h
  | cons b l ih =>
    by_cases hb : p b
    · rw [List.find?_cons_of_pos hb] at h
      obtain rfl := Option.some.inj h
      rw [List.eraseP_cons_of_pos hb]
    · rw [List.find?_cons_of_neg hb] at h
      rw [List.eraseP_cons_of_neg hb]
      exact ((ih h).cons b).trans (List.Perm.swap a b _)

end OlpEdgeSdk.Base.Assoc

import OlpEdgeSdk.Interface.Recency
import OlpEdgeSdk.Model.LruCache

/-!
# The linked cache is a list in order of recency

`Represents cost c items` says that the buckets of `c` are linked as the list `items`: the
walk along `next_` from `first_` meets the keys of `items` in order, `previous_` is its
inverse, `last_` is its end, and `size_` is the sum of the costs. Each function of
`Model.LruCache` on such a cache dereferences no end iterator and returns a cache that
represents the list `Interface.Recency` computes.

The links are changed one bucket at a time. `setNext_spec` and `setPrevious_spec` say what
one such change does to the links read as functions of the key, and `Base.Linked` says
what a sequence of changes has to amount to; `promote_represents` and
`eraseAt_represents` are the two places where the two meet.
-/

set_option autoImplicit false

namespace OlpEdgeSdk.Analysis

open OlpEdgeSdk.Model OlpEdgeSdk.Base OlpEdgeSdk.Interface

variable {Key Value : Type} [DecidableEq Key]

/-- The previous link stored under a key. -/
def previousIt (c : LruCache Key Value) (key : Key) : Option Key :=
  (c.map.lookup key).bind Bucket.previous

/-- The linked structure `c` is the list `items`. -/
structure Represents (cost : Value → UInt64) (c : LruCache Key Value)
    (items : List (Key × Value)) : Prop where
  nodup : (Assoc.keys items).Nodup
  value : ∀ key, c.valueAt (some key) = Assoc.valueOf items key
  linked : Linked (fun key => c.nextIt (some key)) (previousIt c) (Assoc.keys items)
  first : c.first = (Assoc.keys items).head?
  last : c.last = (Assoc.keys items).getLast?
  size : c.size = Recency.total cost items

/-! ## Changing one link -/

theorem lookup_insert_ite (m : AList fun _ : Key => Bucket Key Value) (key other : Key)
    (b : Bucket Key Value) :
    (m.insert key b).lookup other = if other = key then some b else m.lookup other := by
  by_cases h : other = key
  · subst h
    simp
  · rw [if_neg h, AList.lookup_insert_ne h]

/-- `setNext` on a bucket of the map changes that bucket's next link and nothing else. -/
theorem setNext_spec (c : LruCache Key Value) (key : Key) (target : Option Key)
    (h : (c.valueAt (some key)).isSome) :
    ∃ m, c.setNext (some key) target = some { c with map := m } ∧
      (∀ k, LruCache.nextIt { c with map := m } (some k) =
        if k = key then target else c.nextIt (some k)) ∧
      (∀ k, previousIt { c with map := m } k = previousIt c k) ∧
      (∀ k, LruCache.valueAt { c with map := m } (some k) = c.valueAt (some k)) := by
  obtain ⟨b, hb⟩ : ∃ b, c.map.lookup key = some b := by
    simpa [LruCache.valueAt, Option.isSome_iff_exists] using h
  refine ⟨c.map.insert key { b with next := target }, ?_, ?_, ?_, ?_⟩
  · simp [LruCache.setNext, hb]
  · intro k
    rcases eq_or_ne k key with rfl | hk <;> simp [LruCache.nextIt, lookup_insert_ite, *]
  · intro k
    rcases eq_or_ne k key with rfl | hk <;> simp [previousIt, AList.lookup_insert_ne, *]
  · intro k
    rcases eq_or_ne k key with rfl | hk <;> simp [LruCache.valueAt, lookup_insert_ite, *]

/-- `setPrevious` on a bucket of the map changes that bucket's previous link and nothing
else. -/
theorem setPrevious_spec (c : LruCache Key Value) (key : Key) (target : Option Key)
    (h : (c.valueAt (some key)).isSome) :
    ∃ m, c.setPrevious (some key) target = some { c with map := m } ∧
      (∀ k, LruCache.nextIt { c with map := m } (some k) = c.nextIt (some k)) ∧
      (∀ k, previousIt { c with map := m } k = if k = key then target else previousIt c k) ∧
      (∀ k, LruCache.valueAt { c with map := m } (some k) = c.valueAt (some k)) := by
  obtain ⟨b, hb⟩ : ∃ b, c.map.lookup key = some b := by
    simpa [LruCache.valueAt, Option.isSome_iff_exists] using h
  refine ⟨c.map.insert key { b with previous := target }, ?_, ?_, ?_, ?_⟩
  · simp [LruCache.setPrevious, hb]
  · intro k
    rcases eq_or_ne k key with rfl | hk <;> simp [LruCache.nextIt, lookup_insert_ite, *]
  · intro k
    rcases eq_or_ne k key with rfl | hk <;> simp [previousIt, AList.lookup_insert_ne, *]
  · intro k
    rcases eq_or_ne k key with rfl | hk <;> simp [LruCache.valueAt, lookup_insert_ite, *]

/-- The predecessor's side of an unlinking: what follows is told its new predecessor, and
when nothing follows, `last_` is. -/
theorem relink_after (c : LruCache Key Value) (it target : Option Key)
    (hit : ∀ k, it = some k → (c.valueAt (some k)).isSome) :
    ∃ c', (if it = none then some { c with last := target } else c.setPrevious it target) =
        some c' ∧
      (∀ k, c'.nextIt (some k) = c.nextIt (some k)) ∧
      (∀ k, previousIt c' k = if it = some k then target else previousIt c k) ∧
      (∀ k, c'.valueAt (some k) = c.valueAt (some k)) ∧
      c'.first = c.first ∧ c'.last = (if it = none then target else c.last) ∧
      c'.size = c.size ∧ c'.maxSize = c.maxSize := by
  cases it with
  | none => exact ⟨{ c with last := target }, by simp, fun _ => rfl, fun _ => rfl,
      fun _ => rfl, rfl, by simp, rfl, rfl⟩
  | some k =>
    obtain ⟨m, e, n, p, v⟩ := setPrevious_spec c k target (hit k rfl)
    refine ⟨_, by simpa using e, n, ?_, v, rfl, by simp, rfl, rfl⟩
    intro j
    rw [p j]
    simp only [Option.some.injEq, eq_comm]

/-- The successor's side of an unlinking: what precedes is told its new successor, and
when nothing precedes, `first_` is. -/
theorem relink_before (c : LruCache Key Value) (it target : Option Key)
    (hit : ∀ k, it = some k → (c.valueAt (some k)).isSome) :
    ∃ c', (if it = none then some { c with first := target } else c.setNext it target) =
        some c' ∧
      (∀ k, c'.nextIt (some k) = if it = some k then target else c.nextIt (some k)) ∧
      (∀ k, previousIt c' k = previousIt c k) ∧
      (∀ k, c'.valueAt (some k) = c.valueAt (some k)) ∧
      c'.first = (if it = none then target else c.first) ∧ c'.last = c.last ∧
      c'.size = c.size ∧ c'.maxSize = c.maxSize := by
  cases it with
  | none => exact ⟨{ c with first := target }, by simp, fun _ => rfl, fun _ => rfl,
      fun _ => rfl, by simp, rfl, rfl, rfl⟩
  | some k =>
    obtain ⟨m, e, n, p, v⟩ := setNext_spec c k target (hit k rfl)
    refine ⟨_, by simpa using e, ?_, p, v, by simp, rfl, rfl, rfl⟩
    intro j
    rw [n j]
    simp only [Option.some.injEq, eq_comm]

/-- Linking a bucket in front of a non-empty chain: the last two assignments of `Promote`
and those of `AddInternal` for a new bucket.
SOURCE: LruCache.h:476-481, 494-498 -/
theorem link_front (c : LruCache Key Value) {ks : List Key} {key f : Key}
    (hlinked : Linked (fun k => c.nextIt (some k)) (previousIt c) ks) (hnd : ks.Nodup)
    (hkey : key ∉ ks) (hprev : previousIt c key = none) (hfirst : c.first = some f)
    (hhead : ks.head? = some f) (hval : ∀ k ∈ key :: ks, (c.valueAt (some k)).isSome) :
    ∃ m, ((c.setNext (some key) c.first).bind fun c => c.setPrevious c.first (some key)) =
        some { c with map := m } ∧
      Linked (fun k => LruCache.nextIt { c with map := m } (some k))
        (previousIt { c with map := m }) (key :: ks) ∧
      ∀ k, LruCache.valueAt { c with map := m } (some k) = c.valueAt (some k) := by
  have hf : f ∈ ks := List.mem_of_head? hhead
  obtain ⟨m₁, e₁, n₁, p₁, v₁⟩ := setNext_spec c key c.first (hval key (by simp))
  obtain ⟨m₂, e₂, n₂, p₂, v₂⟩ := setPrevious_spec { c with map := m₁ } f (some key)
    (by rw [v₁]; exact hval f (by simp [hf]))
  rw [← hfirst] at e₂
  refine ⟨m₂, by rw [e₁]; exact e₂, ?_, fun k => (v₂ k).trans (v₁ k)⟩
  have hne : key ≠ f := fun heq => hkey (heq ▸ hf)
  apply hlinked.cons_front hkey _ _ _ _ hnd
  · rw [n₂, n₁, if_pos rfl, hfirst, hhead]
  · rw [p₂, if_neg hne, p₁, hprev]
  · intro j hj
    have hjk : j ≠ key := fun heq => hkey (heq ▸ hj)
    rw [n₂, n₁, if_neg hjk]
  · intro j _
    rw [p₂, p₁, hhead]
    simp only [Option.some.injEq, eq_comm]

/-! ## The two list operations -/

namespace Represents

variable {cost : Value → UInt64} {c : LruCache Key Value} {items : List (Key × Value)}

/-- A listed key has a bucket, and its links are those of its place in the list. -/
theorem bucket_of_split (h : Represents cost c items) {a d : List (Key × Value)} {key : Key}
    {value : Value} (hsplit : items = a ++ (key, value) :: d) :
    c.map.lookup key =
      some ⟨(Assoc.keys d).head?, (Assoc.keys a).getLast?, value⟩ := by
  have hvalue : c.valueAt (some key) = some value := by
    rw [h.value, Assoc.valueOf_of_mem h.nodup (e := (key, value)) (by simp [hsplit])]
  have hlinks := h.linked (Assoc.keys a) key (Assoc.keys d) (by simp [hsplit])
  obtain ⟨b, hb, hbv⟩ : ∃ b, c.map.lookup key = some b ∧ b.value = value := by
    simpa [LruCache.valueAt] using hvalue
  simp only [LruCache.nextIt, previousIt, Option.bind_some, hb] at hlinks
  rw [hb, ← hlinks.1, ← hlinks.2, ← hbv]

theorem valueAt_isSome (h : Represents cost c items) {key : Key}
    (hk : key ∈ Assoc.keys items) : (c.valueAt (some key)).isSome := by
  rw [h.value, Assoc.valueOf_isSome]
  exact hk

theorem lookup_eq_none (h : Represents cost c items) {key : Key}
    (hk : key ∉ Assoc.keys items) : c.map.lookup key = none := by
  have hnone := h.value key
  rw [(Assoc.valueOf_eq_none items key).mpr hk] at hnone
  simpa [LruCache.valueAt] using hnone

theorem length_keys (h : Represents cost c items) : c.map.keys.length = items.length := by
  have hmem : ∀ key, key ∈ c.map.keys ↔ key ∈ Assoc.keys items := by
    intro key
    have hv := congrArg Option.isSome (h.value key)
    rw [← AList.mem_keys, ← AList.lookup_isSome, ← Assoc.valueOf_isSome, ← hv]
    simp [LruCache.valueAt]
  have hperm := (List.perm_ext_iff_of_nodup c.map.keys_nodup h.nodup).mpr hmem
  rw [hperm.length_eq, Assoc.keys, List.length_map]

/-- The neighbours of a key, once they are linked to each other, form the list without
that key: what `promote` and `eraseAt` have in common. -/
theorem linked_unlink (h : Represents cost c items) {a d : List (Key × Value)} {key : Key}
    {value : Value} (hsplit : items = a ++ (key, value) :: d) {next prev : Key → Option Key}
    (hnext : ∀ k, k ≠ key → next k =
      if (Assoc.keys a).getLast? = some k then (Assoc.keys d).head?
      else c.nextIt (some k))
    (hprev : ∀ k, k ≠ key → prev k =
      if (Assoc.keys d).head? = some k then (Assoc.keys a).getLast?
      else previousIt c k) :
    Linked next prev (Assoc.keys (a ++ d)) := by
  have hkeys : Assoc.keys items = Assoc.keys a ++ key :: Assoc.keys d := by
    simp [hsplit]
  have hlinked := h.linked
  have hnd := h.nodup
  rw [hkeys] at hlinked hnd
  rw [Assoc.keys_append]
  exact hlinked.unlink hnd hnext hprev

/-- **Promotion** moves the item of a key to the front and keeps everything else.
SOURCE: LruCache.h:462-482 -/
theorem promote (h : Represents cost c items) {key : Key} {value : Value}
    (hv : Assoc.valueOf items key = some value) :
    ∃ c', c.promote key = some c' ∧ Represents cost c' (Assoc.put items key value) ∧
      c'.maxSize = c.maxSize := by
  obtain ⟨a, d, hsplit, ha⟩ := Assoc.split_of_valueOf hv
  have hput : Assoc.put items key value = (key, value) :: (a ++ d) := by
    rw [Assoc.put, hsplit, Assoc.without_split (hsplit ▸ h.nodup)]
  have hbucket := h.bucket_of_split hsplit
  by_cases hfirst : c.first = some key
  · refine ⟨c, by simp [LruCache.promote, hfirst], ?_, rfl⟩
    have hnil : a = [] := by
      cases a with
      | nil => rfl
      | cons e a =>
        rw [h.first, hsplit] at hfirst
        simp only [List.cons_append, Assoc.keys_cons, List.head?_cons, Option.some.injEq]
          at hfirst
        simp [hfirst] at ha
    subst hnil
    rw [hput, List.nil_append, ← List.nil_append ((key, value) :: d), ← hsplit]
    exact h
  · -- the item is not in front, so it has a predecessor `p` to be relinked
    obtain ⟨p, hp⟩ : ∃ p, (Assoc.keys a).getLast? = some p := by
      rcases List.eq_nil_or_concat (Assoc.keys a) with hnil | ⟨l, p, hl⟩
      · have : a = [] := by simpa [Assoc.keys] using hnil
        subst this
        exact absurd (by simp [h.first, hsplit]) hfirst
      · exact ⟨p, by simp [hl]⟩
    have hpa : p ∈ Assoc.keys a := List.mem_of_getLast? hp
    obtain ⟨m₁, e₁, n₁, p₁, v₁⟩ := setNext_spec c p (Assoc.keys d).head?
      (h.valueAt_isSome (by simp [hsplit, hpa]))
    obtain ⟨c₂, e₂, n₂, p₂, v₂, first₂, last₂, size₂, max₂⟩ :=
      relink_after { c with map := m₁ } (Assoc.keys d).head? (some p) (by
        intro k hk
        rw [v₁]
        exact h.valueAt_isSome (by simp [hsplit, List.mem_of_head? hk]))
    have hval₂ : ∀ k, c₂.valueAt (some k) = c.valueAt (some k) := fun k => (v₂ k).trans (v₁ k)
    have hlinked : Linked (fun k => c₂.nextIt (some k)) (previousIt c₂)
        (Assoc.keys (a ++ d)) := by
      apply h.linked_unlink hsplit
      · intro k _
        simp only [n₂, n₁, hp, Option.some.injEq, eq_comm]
      · intro k _
        simp only [p₂, p₁, hp]
    obtain ⟨m₃, e₃, n₃, p₃, v₃⟩ := setPrevious_spec c₂ key none (by
      rw [hval₂]
      exact h.valueAt_isSome (by simp [hsplit]))
    have hnd : (Assoc.keys (a ++ d)).Nodup ∧ key ∉ Assoc.keys (a ++ d) := by
      have hmid := h.nodup
      rw [hsplit, Assoc.keys_append, Assoc.keys_cons, List.nodup_middle,
        List.nodup_cons] at hmid
      rw [Assoc.keys_append]
      exact ⟨hmid.2, hmid.1⟩
    obtain ⟨f, hf⟩ : ∃ f, (Assoc.keys a).head? = some f := by
      cases hka : Assoc.keys a with
      | nil => simp [hka] at hpa
      | cons f l => exact ⟨f, rfl⟩
    have hfirst₂ : c₂.first = some f := by
      rw [first₂]
      simp [h.first, hsplit, hf]
    have hlinked₃ : Linked (fun k => LruCache.nextIt { c₂ with map := m₃ } (some k))
        (previousIt { c₂ with map := m₃ }) (Assoc.keys (a ++ d)) := by
      apply hlinked.congr
      · intro j _
        exact n₃ j
      · intro j hj
        have hjk : j ≠ key := fun heq => hnd.2 (heq ▸ hj)
        rw [p₃, if_neg hjk]
    obtain ⟨m₄, e₄, hlinked₄, v₄⟩ := link_front { c₂ with map := m₃ } hlinked₃ hnd.1 hnd.2
      (by rw [p₃, if_pos rfl]) hfirst₂ (by simp [hf]) (by
        intro k hk
        rw [v₃, hval₂]
        apply h.valueAt_isSome
        rw [hsplit]
        simpa [or_left_comm] using hk)
    have hval₄ : ∀ k, LruCache.valueAt { c₂ with map := m₄ } (some k) = c.valueAt (some k) :=
      fun k => (v₄ k).trans ((v₃ k).trans (hval₂ k))
    refine ⟨{ c₂ with map := m₄, first := some key }, ?_, ?_, max₂⟩
    · simp only [LruCache.promote, if_neg hfirst, hbucket, hp, ite_not, bind, Option.bind_some,
        e₁, e₂, e₃]
      rw [← Option.bind_assoc, e₄]
      rfl
    · rw [hput]
      refine ⟨List.nodup_cons.mpr ⟨hnd.2, hnd.1⟩, ?_, hlinked₄, by simp, ?_, ?_⟩
      · intro k
        rw [← hput, Assoc.valueOf_put_of_valueOf hv, ← h.value]
        exact hval₄ k
      · show c₂.last = _
        rw [last₂, Assoc.keys_cons, Assoc.keys_append]
        cases d with
        | nil => simp [List.getLast?_cons, hp]
        | cons e d => simp [h.last, hsplit, List.getLast?_append, List.getLast?_cons]
      · show c₂.size = _
        rw [size₂, ← hput, Recency.total_put h.nodup hv]
        simp [h.size]

/-- **Erasing** an item unlinks it and takes its cost off the size.
SOURCE: LruCache.h:508-529 -/
theorem eraseAt (h : Represents cost c items) {key : Key} {value : Value}
    (hv : Assoc.valueOf items key = some value) (doEvictionCallback : Bool) :
    ∃ c', c.eraseAt cost key doEvictionCallback =
        some (c', if doEvictionCallback then [(key, value)] else []) ∧
      Represents cost c' (Assoc.without items key) ∧ c'.maxSize = c.maxSize := by
  obtain ⟨a, d, hsplit, -⟩ := Assoc.split_of_valueOf hv
  have hwithout : Assoc.without items key = a ++ d := by
    rw [hsplit, Assoc.without_split (hsplit ▸ h.nodup)]
  have hmid := h.nodup
  rw [hsplit, Assoc.keys_append, Assoc.keys_cons, List.nodup_middle, List.nodup_cons,
    ← Assoc.keys_append] at hmid
  obtain ⟨c₁, e₁, n₁, p₁, v₁, first₁, last₁, size₁, max₁⟩ :=
    relink_after c (Assoc.keys d).head? (Assoc.keys a).getLast? (by
      intro k hk
      exact h.valueAt_isSome (by simp [hsplit, List.mem_of_head? hk]))
  obtain ⟨c₂, e₂, n₂, p₂, v₂, first₂, last₂, size₂, max₂⟩ :=
    relink_before c₁ (Assoc.keys a).getLast? (Assoc.keys d).head? (by
      intro k hk
      rw [v₁]
      exact h.valueAt_isSome (by simp [hsplit, List.mem_of_getLast? hk]))
  have hlinked : Linked (fun k => c₂.nextIt (some k)) (previousIt c₂)
      (Assoc.keys (a ++ d)) := by
    apply h.linked_unlink hsplit
    · intro k _
      simp only [n₂, n₁]
    · intro k _
      simp only [p₂, p₁]
  refine ⟨{ c₂ with map := c₂.map.erase key, size := c₂.size - cost value }, ?_, ?_, ?_⟩
  · simp only [LruCache.eraseAt, h.bucket_of_split hsplit, bind, Option.bind_some, e₁, e₂]
  · rw [hwithout]
    refine ⟨hmid.2, ?_, ?_, ?_, ?_, ?_⟩
    · intro k
      rw [← hwithout]
      rcases eq_or_ne k key with rfl | hk
      · simp [LruCache.valueAt]
      · rw [Assoc.valueOf_without_ne items hk, ← h.value, ← v₁, ← v₂]
        simp [LruCache.valueAt, AList.lookup_erase_ne hk]
    · apply hlinked.congr
      · intro j hj
        have hjk : j ≠ key := fun heq => hmid.1 (heq ▸ hj)
        simp [LruCache.nextIt, AList.lookup_erase_ne hjk]
      · intro j hj
        have hjk : j ≠ key := fun heq => hmid.1 (heq ▸ hj)
        simp [previousIt, AList.lookup_erase_ne hjk]
    · show c₂.first = _
      rw [first₂, first₁, h.first, hsplit]
      cases a with
      | nil => simp
      | cons e a => simp [List.getLast?_cons]
    · show c₂.last = _
      rw [last₂, last₁, h.last, hsplit]
      cases d with
      | nil => simp
      | cons e d => simp [List.getLast?_append, List.getLast?_cons]
    · show c₂.size - cost value = _
      rw [size₂, size₁, h.size, ← hwithout, Recency.total_without h.nodup hv]
  · exact max₂.trans max₁

/-! ## The functions of the cache -/

/-- **Popping** the least recent item hands it to the eviction callback.
SOURCE: LruCache.h:531-541 -/
theorem popLast {e : Key × Value} (h : Represents cost c (items ++ [e])) :
    ∃ c', c.popLast cost = some (c', [e]) ∧ Represents cost c' items ∧
      c'.maxSize = c.maxSize := by
  have hlast : c.last = some e.1 := by simp [h.last]
  have hv := Assoc.valueOf_of_mem h.nodup (e := e) (by simp)
  obtain ⟨c', heq, hrep, hmax⟩ := h.eraseAt hv true
  have hwithout : Assoc.without (items ++ [e]) e.1 = items := by
    have hnd : (Assoc.keys (items ++ (e.1, e.2) :: [])).Nodup := h.nodup
    simpa using Assoc.without_split hnd
  rw [hwithout] at hrep
  refine ⟨c', ?_, hrep, hmax⟩
  rw [LruCache.popLast, hlast, Option.bind_some, heq]
  rfl

/-- The eviction loop, for a list given oldest item first. -/
theorem evictLoop (oldest : List (Key × Value)) (n : ℕ) (hn : oldest.length ≤ n)
    (h : Represents cost c oldest.reverse) :
    ∃ c', LruCache.evictLoop cost n c =
        some (c', (Recency.shrinkOldest cost c.maxSize oldest).2) ∧
      Represents cost c' (Recency.shrinkOldest cost c.maxSize oldest).1.reverse ∧
      c'.maxSize = c.maxSize := by
  have hsize : c.size = Recency.total cost oldest := by rw [h.size, Recency.total_reverse]
  induction oldest generalizing c n with
  | nil =>
    have hfits : ¬ c.size > c.maxSize := by simp [hsize]
    exact ⟨c, by cases n <;> simp [LruCache.evictLoop, hfits, Recency.shrinkOldest], h, rfl⟩
  | cons e oldest ih =>
    cases n with
    | zero => simp at hn
    | succ n =>
      unfold Recency.shrinkOldest
      rw [← hsize]
      by_cases hover : c.size > c.maxSize
      · rw [List.reverse_cons] at h
        obtain ⟨c₁, e₁, h₁, max₁⟩ := h.popLast
        obtain ⟨c', e', h', max'⟩ := ih n (by simpa using hn) h₁
          (by rw [h₁.size, Recency.total_reverse])
        rw [max₁] at e' h' max'
        refine ⟨c', ?_, ?_, max'⟩
        · simp [LruCache.evictLoop, hover, e₁, e']
        · simpa [hover] using h'
      · exact ⟨c, by simp [LruCache.evictLoop, hover], by simpa [hover] using h, rfl⟩

/-- **Eviction** shrinks the list to the maximum size.
SOURCE: LruCache.h:387-389 -/
theorem evict (h : Represents cost c items) :
    ∃ c', c.evict cost = some (c', (Recency.shrink cost c.maxSize items).2) ∧
      Represents cost c' (Recency.shrink cost c.maxSize items).1 ∧
      c'.maxSize = c.maxSize := by
  have hloop := evictLoop items.reverse c.map.keys.length (by simp [h.length_keys])
    (by simpa using h)
  exact hloop

/-- A bucket that has just been put in the map is linked in front and makes room for
itself.
SOURCE: LruCache.h:484-506 -/
theorem addInternal_new (h : Represents cost c items) {key : Key} (value : Value)
    (hkey : key ∉ Assoc.keys items) :
    ∃ c', LruCache.addInternal cost { c with map := c.map.insert key ⟨none, none, value⟩ } key
          (cost value) none =
        some (c', (Recency.shrink cost c.maxSize (Assoc.put items key value)).2) ∧
      Represents cost c' (Recency.shrink cost c.maxSize (Assoc.put items key value)).1 ∧
      c'.maxSize = c.maxSize := by
  have hput : Assoc.put items key value = (key, value) :: items := by
    rw [Assoc.put, Assoc.without_of_notMem hkey]
  have hval : ∀ k, LruCache.valueAt { c with map := c.map.insert key ⟨none, none, value⟩ }
      (some k) = Assoc.valueOf (Assoc.put items key value) k := by
    intro k
    rw [Assoc.valueOf_put]
    rcases eq_or_ne k key with rfl | hk
    · simp [LruCache.valueAt]
    · rw [if_neg (Ne.symm hk), ← h.value]
      simp [LruCache.valueAt, AList.lookup_insert_ne hk]
  have hlength : (c.map.insert key ⟨none, none, value⟩).keys.length = items.length + 1 := by
    have hmem : key ∉ c.map := AList.lookup_eq_none.mp (h.lookup_eq_none hkey)
    rw [AList.keys_insert, List.erase_of_not_mem (by simpa [AList.mem_keys] using hmem),
      List.length_cons, h.length_keys]
  -- the state after linking, before eviction
  obtain ⟨c₁, hstep, hrep, hmax⟩ : ∃ c₁ : LruCache Key Value,
      (∀ oldCost, oldCost = none → LruCache.addInternal cost
          { c with map := c.map.insert key ⟨none, none, value⟩ } key (cost value) oldCost =
        c₁.evict cost) ∧
      Represents cost c₁ (Assoc.put items key value) ∧ c₁.maxSize = c.maxSize := by
    cases items with
    | nil =>
      refine ⟨{ c with
        map := c.map.insert key ⟨none, none, value⟩
        last := some key
        first := some key
        size := c.size + cost value }, ?_, ⟨?_, hval, ?_, rfl, rfl, ?_⟩, rfl⟩
      · rintro _ rfl
        simp only [LruCache.addInternal, hlength, List.length_nil, Nat.zero_add, if_true]
        rfl
      · simp [hput]
      · intro l₁ k l₂ hk
        rw [hput] at hk
        rcases l₁ with _ | ⟨_, _⟩ <;> simp at hk
        obtain ⟨rfl, rfl⟩ := hk
        simp [LruCache.nextIt, previousIt]
      · simp [hput, h.size]
    | cons e items =>
      have hlinked : Linked
          (fun k => LruCache.nextIt { c with map := c.map.insert key ⟨none, none, value⟩ } (some k))
          (previousIt { c with map := c.map.insert key ⟨none, none, value⟩ })
          (Assoc.keys (e :: items)) := by
        apply h.linked.congr
        · intro j hj
          have hjk : j ≠ key := fun heq => hkey (heq ▸ hj)
          simp [LruCache.nextIt, AList.lookup_insert_ne hjk]
        · intro j hj
          have hjk : j ≠ key := fun heq => hkey (heq ▸ hj)
          simp [previousIt, AList.lookup_insert_ne hjk]
      obtain ⟨m, hlink, hlinked', hval'⟩ := link_front
        { c with map := c.map.insert key ⟨none, none, value⟩ } hlinked h.nodup hkey
        (by simp [previousIt]) (f := e.1) (by simp [h.first]) (by simp) (by
          intro k hk
          rw [hval, Assoc.valueOf_isSome, hput]
          exact hk)
      refine ⟨{ c with map := m, first := some key, size := c.size + cost value }, ?_,
        ⟨?_, fun k => (hval' k).trans (hval k), ?_, by simp [hput], ?_, ?_⟩, rfl⟩
      · rintro _ rfl
        simp only [LruCache.addInternal, hlength, List.length_cons, Nat.add_eq_right,
          Nat.add_eq_zero_iff, one_ne_zero, and_false, if_false, bind]
        rw [← Option.bind_assoc, hlink]
        rfl
      · rw [hput, Assoc.keys_cons]
        exact List.nodup_cons.mpr ⟨hkey, h.nodup⟩
      · rw [hput]
        exact hlinked'
      · simp [hput, h.last, List.getLast?_cons]
      · simp only [hput, Recency.total_cons, h.size]
        abel
  obtain ⟨c', he, hr, hm⟩ := hrep.evict
  rw [hmax] at he hr hm
  exact ⟨c', by rw [hstep none rfl, he], hr, hm⟩

/-- The state in which a stored value has been replaced and the size corrected, before the
bucket is promoted. -/
theorem assign (h : Represents cost c items) {key : Key} {old : Value}
    (hv : Assoc.valueOf items key = some old) (value : Value) {b : Bucket Key Value}
    (hb : c.map.lookup key = some b) :
    ∃ items', Represents cost { c with
        map := c.map.insert key { b with value := value }
        size := c.size + (cost value - cost old) } items' ∧
      Assoc.valueOf items' key = some value ∧
      Assoc.put items' key value = Assoc.put items key value := by
  obtain ⟨a, d, hsplit, ha⟩ := Assoc.split_of_valueOf hv
  have hkeys : Assoc.keys (a ++ (key, value) :: d) = Assoc.keys items := by simp [hsplit]
  have hnd : (Assoc.keys (a ++ (key, value) :: d)).Nodup := hkeys ▸ h.nodup
  have hlookup : ∀ k, (c.map.insert key { b with value := value }).lookup k =
      if k = key then some { b with value := value } else c.map.lookup k :=
    fun k => lookup_insert_ite c.map key k _
  refine ⟨a ++ (key, value) :: d, ⟨hnd, ?_, ?_, ?_, ?_, ?_⟩, ?_, ?_⟩
  · intro k
    rcases eq_or_ne k key with rfl | hk
    · rw [Assoc.valueOf_of_mem hnd (e := (k, value)) (by simp)]
      simp [LruCache.valueAt]
    · have hold := h.value k
      rw [hsplit, Assoc.valueOf_append, Assoc.valueOf_cons, if_neg (Ne.symm hk)] at hold
      rw [Assoc.valueOf_append, Assoc.valueOf_cons, if_neg (Ne.symm hk), ← hold]
      simp [LruCache.valueAt, AList.lookup_insert_ne hk]
  · rw [hkeys]
    apply h.linked.congr
    · intro j _
      rcases eq_or_ne j key with rfl | hj
      · simp [LruCache.nextIt, hb]
      · simp [LruCache.nextIt, AList.lookup_insert_ne hj]
    · intro j _
      rcases eq_or_ne j key with rfl | hj
      · simp [previousIt, hb]
      · simp [previousIt, AList.lookup_insert_ne hj]
  · rw [hkeys]
    exact h.first
  · rw [hkeys]
    exact h.last
  · simp only [h.size, hsplit, Recency.total_append, Recency.total_cons]
    abel
  · exact Assoc.valueOf_of_mem hnd (e := (key, value)) (by simp)
  · rw [Assoc.put, Assoc.put, Assoc.without_split hnd, hsplit,
      Assoc.without_split (hsplit ▸ h.nodup)]

/-- **Insert or assign**: the flag is set for a stored new item only, and the iterator is
the end exactly for a new item that is refused.
SOURCE: LruCache.h:433-460 -/
theorem insertOrAssign (h : Represents cost c items) (key : Key) (value : Value) :
    ∃ r, c.insertOrAssign cost key value = some r ∧
      Represents cost r.cache (Recency.insertOrAssign cost c.maxSize items key value).1 ∧
      r.evicted = (Recency.insertOrAssign cost c.maxSize items key value).2 ∧
      r.cache.maxSize = c.maxSize ∧
      r.inserted = decide (key ∉ Assoc.keys items ∧ cost value ≤ c.maxSize) ∧
      r.it = if Recency.refuses cost c.maxSize items key value then none else some key := by
  unfold Recency.insertOrAssign Recency.refuses
  cases hv : Assoc.valueOf items key with
  | some old =>
    have hmem := Assoc.mem_keys_of_valueOf hv
    obtain ⟨a, d, hsplit, -⟩ := Assoc.split_of_valueOf hv
    have hb := h.bucket_of_split hsplit
    obtain ⟨items', hrep, hv', hput⟩ := h.assign hv value hb
    obtain ⟨c₁, e₁, h₁, max₁⟩ := hrep.promote hv'
    obtain ⟨c₂, e₂, h₂, max₂⟩ := h₁.evict
    rw [hput, max₁] at h₂ e₂
    refine ⟨⟨c₂, some key, false, (Recency.shrink cost c.maxSize (Assoc.put items key value)).2⟩,
      ?_, ?_⟩
    · simp [LruCache.insertOrAssign, hb, LruCache.addInternal, e₁, e₂]
    · simpa [hmem] using ⟨h₂, max₂.trans max₁⟩
  | none =>
    have hmem : key ∉ Assoc.keys items := (Assoc.valueOf_eq_none items key).mp hv
    have hb := h.lookup_eq_none hmem
    by_cases hover : cost value > c.maxSize
    · refine ⟨⟨c, none, false, []⟩, ?_, ?_⟩
      · simp [LruCache.insertOrAssign, hb, hover]
      · simpa [hmem, hover] using h
    · obtain ⟨c₁, e₁, h₁, max₁⟩ := h.addInternal_new value hmem
      refine ⟨⟨c₁, some key, true, (Recency.shrink cost c.maxSize (Assoc.put items key value)).2⟩,
        ?_, ?_⟩
      · simp [LruCache.insertOrAssign, hb, hover, e₁]
      · simpa [hmem, hover, UInt64.not_lt.mp hover] using ⟨h₁, max₁⟩

/-- **Erase by key** removes the item, if there is one.
SOURCE: LruCache.h:227-233 -/
theorem erase (h : Represents cost c items) (key : Key) :
    ∃ c', c.erase cost key = some (c', decide (key ∈ Assoc.keys items)) ∧
      Represents cost c' (Assoc.without items key) ∧ c'.maxSize = c.maxSize := by
  cases hv : Assoc.valueOf items key with
  | some value =>
    have hmem := Assoc.mem_keys_of_valueOf hv
    obtain ⟨a, d, hsplit, -⟩ := Assoc.split_of_valueOf hv
    obtain ⟨c', e', h', max'⟩ := h.eraseAt hv false
    exact ⟨c', by simp [LruCache.erase, h.bucket_of_split hsplit, e', hmem], h', max'⟩
  | none =>
    have hmem : key ∉ Assoc.keys items := (Assoc.valueOf_eq_none items key).mp hv
    have hb := h.lookup_eq_none hmem
    exact ⟨c, by simp [LruCache.erase, hb, hmem],
      by rwa [Assoc.without_of_notMem hmem], rfl⟩

/-- **Find** touches the key it finds.
SOURCE: LruCache.h:276-280 -/
theorem find (h : Represents cost c items) (key : Key) :
    ∃ c', c.find key = some (c', if key ∈ Assoc.keys items then some key else none) ∧
      Represents cost c' (Recency.touch items key) ∧ c'.maxSize = c.maxSize := by
  unfold Recency.touch
  cases hv : Assoc.valueOf items key with
  | some value =>
    have hmem := Assoc.mem_keys_of_valueOf hv
    obtain ⟨a, d, hsplit, -⟩ := Assoc.split_of_valueOf hv
    obtain ⟨c', e', h', max'⟩ := h.promote hv
    exact ⟨c', by simp [LruCache.find, h.bucket_of_split hsplit, e', hmem], h', max'⟩
  | none =>
    have hmem : key ∉ Assoc.keys items := (Assoc.valueOf_eq_none items key).mp hv
    have hb := h.lookup_eq_none hmem
    exact ⟨c, by simp [LruCache.find, hb, hmem], h, rfl⟩

/-- **Clear** leaves the empty list.
SOURCE: LruCache.h:312-316 -/
theorem clear (c : LruCache Key Value) : Represents cost c.clear [] :=
  ⟨by simp, fun _ => rfl, Linked.nil, rfl, rfl, rfl⟩

theorem new (maxSize : UInt64) :
    Represents cost (LruCache.new maxSize : LruCache Key Value) [] :=
  ⟨by simp, fun _ => rfl, Linked.nil, rfl, rfl, rfl⟩

/-- The walk from `begin()` to `end()` reads the list back. -/
theorem toList_eq (h : Represents cost c items) : c.toList = items := by
  have hwalk : c.walk = Assoc.keys items := by
    rw [LruCache.walk, h.first]
    exact h.linked.follow_eq (by rw [h.length_keys, Assoc.keys, List.length_map])
  have hread : ∀ e ∈ items, ((c.valueAt (some e.1)).map fun value => (e.1, value)) = some e := by
    intro e he
    rw [h.value, Assoc.valueOf_of_mem h.nodup he]
    rfl
  rw [LruCache.toList, hwalk, Assoc.keys, List.filterMap_map]
  exact (List.filterMap_congr (g := some) hread).trans List.filterMap_some

end Represents

end OlpEdgeSdk.Analysis

import OlpEdgeSdk.Model.InMemoryCache

/-!
# What each function of the memory tier does to the items and to the expiry index

Two observations describe a state: the tuple a key holds (`held`), and whether a bucket of
the expiry index lists a key (`Lists`). Every function gets one lemma for each of the two,
and nothing after this module unfolds a function of the cache.

The index is never corrected: `Remove`, a prefix removal, an assignment and an eviction
leave its entries as they are (`lists_remove`, `lists_removeKeysWithPrefix`, `lists_store`),
and a purge erases a listed key whatever it holds by then (`held_purgeExpiredAt`).
-/

set_option autoImplicit false

namespace OlpEdgeSdk.Analysis

open OlpEdgeSdk.Model OlpEdgeSdk.Base OlpEdgeSdk.Interface

namespace InMemoryCache

open OlpEdgeSdk.Model.InMemoryCache

variable {Item : Type} {cacheCost : ItemTuple Item → UInt64}

/-- The tuple stored for a key. -/
def held (c : InMemoryCache Item cacheCost) (key : List Char) : Option (ItemTuple Item) :=
  Assoc.valueOf c.itemTuples.items key

/-- The bucket of an expiry time lists a key. -/
def Lists (c : InMemoryCache Item cacheCost) (expireTime : ℤ) (key : List Char) : Prop :=
  ∃ tuple ∈ c.bucket expireTime, tuple.key = key

/-! ## Purging -/

theorem valueOf_foldl_erase (tuples : List (ItemTuple Item))
    (l : LinkedLru (List Char) (ItemTuple Item) cacheCost) (key : List Char)
    (tuple : ItemTuple Item) :
    Assoc.valueOf (tuples.foldl (fun l tuple => l.erase tuple.key) l).items key = some tuple ↔
      Assoc.valueOf l.items key = some tuple ∧ ∀ t ∈ tuples, t.key ≠ key := by
  induction tuples generalizing l with
  | nil => simp
  | cons t tuples ih =>
    rw [List.foldl_cons, ih, LinkedLru.items_erase]
    rcases eq_or_ne t.key key with rfl | hne
    · simp
    · rw [Assoc.valueOf_without_ne _ hne.symm]
      simp [hne]

theorem bucket_purgeExpiredAt (c : InMemoryCache Item cacheCost) (expireTime other : ℤ) :
    (c.purgeExpiredAt expireTime).bucket other =
      if other = expireTime then [] else c.bucket other := by
  simp only [bucket, purgeExpiredAt, SortedMap.find_erase]
  split <;> rfl

theorem held_purgeExpiredAt (c : InMemoryCache Item cacheCost) (expireTime : ℤ)
    (key : List Char) (tuple : ItemTuple Item) :
    held (c.purgeExpiredAt expireTime) key = some tuple ↔
      held c key = some tuple ∧ ¬ Lists c expireTime key := by
  unfold held purgeExpiredAt Lists
  rw [valueOf_foldl_erase]
  simp

theorem lists_purgeExpiredAt (c : InMemoryCache Item cacheCost) (expireTime other : ℤ)
    (key : List Char) :
    Lists (c.purgeExpiredAt expireTime) other key ↔ other ≠ expireTime ∧ Lists c other key := by
  unfold Lists
  rw [bucket_purgeExpiredAt]
  by_cases h : other = expireTime
  · simp [h]
  · simp [h]

theorem held_foldl_purgeExpiredAt (expired : List ℤ) (c : InMemoryCache Item cacheCost)
    (key : List Char) (tuple : ItemTuple Item) :
    held (expired.foldl purgeExpiredAt c) key = some tuple ↔
      held c key = some tuple ∧ ∀ t ∈ expired, ¬ Lists c t key := by
  induction expired generalizing c with
  | nil => simp
  | cons t expired ih =>
    rw [List.foldl_cons, ih, held_purgeExpiredAt]
    simp only [lists_purgeExpiredAt, List.forall_mem_cons, and_assoc]
    constructor
    · rintro ⟨hheld, hnt, hrest⟩
      refine ⟨hheld, hnt, fun t' ht' hl => ?_⟩
      by_cases h : t' = t
      · exact hnt (h ▸ hl)
      · exact hrest t' ht' ⟨h, hl⟩
    · rintro ⟨hheld, hnt, hrest⟩
      exact ⟨hheld, hnt, fun t' ht' hl => hrest t' ht' hl.2⟩

theorem lists_foldl_purgeExpiredAt (expired : List ℤ) (c : InMemoryCache Item cacheCost)
    (t : ℤ) (key : List Char) :
    Lists (expired.foldl purgeExpiredAt c) t key ↔ t ∉ expired ∧ Lists c t key := by
  induction expired generalizing c with
  | nil => simp
  | cons t' expired ih =>
    rw [List.foldl_cons, ih, lists_purgeExpiredAt]
    simp only [List.mem_cons, not_or]
    tauto

@[simp] theorem maxSize_purgeExpiredAt (c : InMemoryCache Item cacheCost) (expireTime : ℤ) :
    (c.purgeExpiredAt expireTime).itemTuples.maxSize = c.itemTuples.maxSize := by
  have herase : ∀ (tuples : List (ItemTuple Item))
      (l : LinkedLru (List Char) (ItemTuple Item) cacheCost),
      (tuples.foldl (fun l tuple => l.erase tuple.key) l).maxSize = l.maxSize := by
    intro tuples
    induction tuples with
    | nil => intro l; rfl
    | cons t tuples ih => intro l; rw [List.foldl_cons, ih, LinkedLru.maxSize_erase]
  exact herase _ _

theorem maxSize_foldl_purgeExpiredAt (expired : List ℤ) (c : InMemoryCache Item cacheCost) :
    (expired.foldl purgeExpiredAt c).itemTuples.maxSize = c.itemTuples.maxSize := by
  induction expired generalizing c with
  | nil => rfl
  | cons t expired ih => rw [List.foldl_cons, ih, maxSize_purgeExpiredAt]

end InMemoryCache

/-! ## The clock -/

namespace Clock

/-- A clock that does not go back and stays in the range of `time_t`. -/
structure NonDecreasing (clock : Clock) : Prop where
  mono : ∀ i j, i ≤ j → clock i ≤ clock j
  le_timeMax : ∀ i, clock i ≤ timeMax

/-- A later clock: what is left of a clock after some readings. -/
def Left (clock later : Clock) : Prop := ∃ n, later = fun m => clock (m + n)

variable {clock later last : Clock}

theorem Left.refl (clock : Clock) : Left clock clock := ⟨0, rfl⟩

theorem Left.rest (clock : Clock) : Left clock clock.rest := ⟨1, rfl⟩

theorem Left.trans (h : Left clock later) (h' : Left later last) : Left clock last := by
  obtain ⟨n, rfl⟩ := h
  obtain ⟨m, rfl⟩ := h'
  exact ⟨m + n, funext fun i => congrArg clock (Nat.add_assoc i m n)⟩

theorem NonDecreasing.left (hmono : NonDecreasing clock) (h : Left clock later) :
    NonDecreasing later := by
  obtain ⟨n, rfl⟩ := h
  exact ⟨fun i j hij => hmono.mono _ _ (by omega), fun i => hmono.le_timeMax _⟩

theorem NonDecreasing.now_le (hmono : NonDecreasing clock) (h : Left clock later) :
    clock.now ≤ later.now := by
  obtain ⟨n, rfl⟩ := h
  exact hmono.mono _ _ (by omega)

theorem NonDecreasing.const {now : ℤ} (h : now ≤ timeMax) : NonDecreasing fun _ => now :=
  ⟨fun _ _ _ => le_rfl, fun _ => h⟩

end Clock

namespace InMemoryCache

open OlpEdgeSdk.Model.InMemoryCache

variable {Item : Type} {cacheCost : ItemTuple Item → UInt64}

theorem left_expiredKeys (buckets : List (ℤ × List (ItemTuple Item))) (clock : Clock) :
    Clock.Left clock (expiredKeys buckets clock).2 := by
  induction buckets generalizing clock with
  | nil => exact Clock.Left.refl clock
  | cons b buckets ih =>
    unfold expiredKeys
    split
    · exact (Clock.Left.rest clock).trans (ih clock.rest)
    · exact Clock.Left.rest clock

/-- What the scan finds expired is in the past when the scan is over. -/
theorem lt_now_of_mem_expiredKeys {clock : Clock} (hmono : Clock.NonDecreasing clock)
    (buckets : List (ℤ × List (ItemTuple Item))) {t : ℤ}
    (ht : t ∈ (expiredKeys buckets clock).1) : t < (expiredKeys buckets clock).2.now := by
  induction buckets generalizing clock with
  | nil => simp [expiredKeys] at ht
  | cons b buckets ih =>
    unfold expiredKeys at ht ⊢
    split at ht
    · rename_i hlt
      rw [if_pos hlt]
      rcases List.mem_cons.mp ht with rfl | ht
      · have hleft := (Clock.Left.rest clock).trans (left_expiredKeys buckets clock.rest)
        exact lt_of_lt_of_le hlt (hmono.now_le hleft)
      · exact ih (hmono.left (Clock.Left.rest clock)) ht
    · simp at ht

/-- The expiry times the next purge finds expired. -/
def expiring (c : InMemoryCache Item cacheCost) (clock : Clock) : List ℤ :=
  (expiredKeys c.itemExpiries.entries clock).1

theorem left_purgeExpired (c : InMemoryCache Item cacheCost) (clock : Clock) :
    Clock.Left clock (c.purgeExpired clock).2 :=
  left_expiredKeys _ _

/-- A purge erases exactly the keys that an expired bucket lists. -/
theorem held_purgeExpired (c : InMemoryCache Item cacheCost) (clock : Clock)
    (key : List Char) (tuple : ItemTuple Item) :
    held (c.purgeExpired clock).1 key = some tuple ↔
      held c key = some tuple ∧ ∀ t ∈ expiring c clock, ¬ Lists c t key :=
  held_foldl_purgeExpiredAt _ c key tuple

/-- A purge erases exactly the expired buckets. -/
theorem lists_purgeExpired (c : InMemoryCache Item cacheCost) (clock : Clock) (t : ℤ)
    (key : List Char) :
    Lists (c.purgeExpired clock).1 t key ↔ t ∉ expiring c clock ∧ Lists c t key :=
  lists_foldl_purgeExpiredAt _ c t key

theorem lt_now_of_mem_expiring {clock : Clock} (hmono : Clock.NonDecreasing clock)
    (c : InMemoryCache Item cacheCost) {t : ℤ} (ht : t ∈ expiring c clock) :
    t < (c.purgeExpired clock).2.now :=
  lt_now_of_mem_expiredKeys hmono _ ht

@[simp] theorem maxSize_purgeExpired (c : InMemoryCache Item cacheCost) (clock : Clock) :
    (c.purgeExpired clock).1.itemTuples.maxSize = c.itemTuples.maxSize :=
  maxSize_foldl_purgeExpiredAt _ c

/-! ## Storing -/

@[simp] theorem itemTuples_onEviction (c : InMemoryCache Item cacheCost) (key : List Char)
    (value : ItemTuple Item) : (c.onEviction key value).itemTuples = c.itemTuples := by
  unfold onEviction
  dsimp only
  split <;> try split
  all_goals rfl

/-- **The eviction callback corrects nothing**: it works on a copy of the bucket, so every
bucket lists the same keys after it. -/
theorem bucket_onEviction (c : InMemoryCache Item cacheCost) (key : List Char)
    (value : ItemTuple Item) (t : ℤ) : (c.onEviction key value).bucket t = c.bucket t := by
  unfold onEviction
  dsimp only
  split
  · split
    · rename_i hlen
      have hnil : c.bucket value.expiry = [] := List.length_eq_zero_iff.mp hlen
      unfold bucket at hnil ⊢
      rw [SortedMap.find_erase]
      split
      · rename_i heq
        rw [heq, hnil]
        rfl
      · rfl
    · rfl
  · rfl

theorem foldl_onEviction (evicted : List (List Char × ItemTuple Item))
    (c : InMemoryCache Item cacheCost) :
    (evicted.foldl (fun c e => c.onEviction e.1 e.2) c).itemTuples = c.itemTuples ∧
      ∀ t, (evicted.foldl (fun c e => c.onEviction e.1 e.2) c).bucket t = c.bucket t := by
  induction evicted generalizing c with
  | nil => exact ⟨rfl, fun _ => rfl⟩
  | cons e evicted ih =>
    obtain ⟨hitems, hbucket⟩ := ih (c.onEviction e.1 e.2)
    refine ⟨?_, fun t => ?_⟩
    · rw [List.foldl_cons, hitems, itemTuples_onEviction]
    · rw [List.foldl_cons, hbucket, bucket_onEviction]

theorem itemTuples_store (c : InMemoryCache Item cacheCost) (tuple : ItemTuple Item) :
    (c.store tuple).1.itemTuples = (c.itemTuples.insertOrAssign tuple.key tuple).1 :=
  (foldl_onEviction _ _).1

@[simp] theorem maxSize_store (c : InMemoryCache Item cacheCost) (tuple : ItemTuple Item) :
    (c.store tuple).1.itemTuples.maxSize = c.itemTuples.maxSize := by
  rw [itemTuples_store, LinkedLru.maxSize_insertOrAssign]

/-- Storing a tuple leaves the index alone, also when it assigns or evicts. -/
theorem bucket_store (c : InMemoryCache Item cacheCost) (tuple : ItemTuple Item) (t : ℤ) :
    (c.store tuple).1.bucket t = c.bucket t :=
  (foldl_onEviction _ _).2 t

theorem lists_store (c : InMemoryCache Item cacheCost) (tuple : ItemTuple Item) (t : ℤ)
    (key : List Char) : Lists (c.store tuple).1 t key ↔ Lists c t key := by
  unfold Lists
  rw [bucket_store]

/-- What a key holds after a tuple has been stored: the tuple if it is its key, and
otherwise at most what it held before. -/
theorem held_of_held_store {c : InMemoryCache Item cacheCost} {tuple t : ItemTuple Item}
    {key : List Char} (h : held (c.store tuple).1 key = some t) :
    (tuple.key = key ∧ t = tuple) ∨ (tuple.key ≠ key ∧ held c key = some t) := by
  unfold held at h ⊢
  rw [itemTuples_store, LinkedLru.items_insertOrAssign] at h
  exact Recency.valueOf_insertOrAssign h

/-- The flag of `InsertOrAssign` tells a new key from an assigned or refused one. -/
theorem store_inserted (c : InMemoryCache Item cacheCost) (tuple : ItemTuple Item) :
    (c.store tuple).2 = true ↔
      held c tuple.key = none ∧ cacheCost tuple ≤ c.itemTuples.maxSize := by
  have hflag : (c.store tuple).2 = (c.itemTuples.insertOrAssign tuple.key tuple).2.1 := rfl
  unfold held
  rw [hflag, LinkedLru.insertOrAssign_inserted, Assoc.valueOf_eq_none]

theorem bucket_listExpiry (c : InMemoryCache Item cacheCost) (tuple : ItemTuple Item) (t : ℤ) :
    (c.listExpiry tuple).bucket t =
      if t = tuple.expiry then c.bucket tuple.expiry ++ [tuple] else c.bucket t := by
  simp only [bucket, listExpiry, SortedMap.find_insert]
  split
  · rfl
  · rfl

theorem lists_listExpiry (c : InMemoryCache Item cacheCost) (tuple : ItemTuple Item) (t : ℤ)
    (key : List Char) :
    Lists (c.listExpiry tuple) t key ↔
      Lists c t key ∨ (t = tuple.expiry ∧ tuple.key = key) := by
  unfold Lists
  rw [bucket_listExpiry]
  by_cases h : t = tuple.expiry
  · simp only [h, if_true, List.mem_append, List.mem_singleton, or_and_right, exists_or,
      exists_eq_left, true_and]
  · simp [h]

@[simp] theorem held_listExpiry (c : InMemoryCache Item cacheCost) (tuple : ItemTuple Item)
    (key : List Char) : held (c.listExpiry tuple) key = held c key := rfl

/-! ## Removing -/

/-- The items and the iterator of the loop of `RemoveKeysWithPrefix`. -/
abbrev Walk (Item : Type) (cacheCost : ItemTuple Item → UInt64) : Type :=
  LinkedLru (List Char) (ItemTuple Item) cacheCost × Option (List Char)

/-- One turn of the loop: the iterator is moved on before its item is unlinked.
SOURCE: InMemoryCache.cpp:115-120, LruCache.h:235-241 -/
def prefixTurn (keyPrefix : List Char) (s : Walk Item cacheCost) : Walk Item cacheCost :=
  match s.2 with
  | none => s
  | some key =>
    (if key.take keyPrefix.length = keyPrefix then s.1.erase key else s.1, s.1.nextIt (some key))

theorem removeLoop_succ (keyPrefix : List Char) (n : ℕ) (s : Walk Item cacheCost) :
    removeLoop keyPrefix (n + 1) s.1 s.2 =
      removeLoop keyPrefix n (prefixTurn keyPrefix s).1 (prefixTurn keyPrefix s).2 := by
  obtain ⟨l, it⟩ := s
  cases it with
  | none => cases n <;> rfl
  | some key =>
    simp only [removeLoop, prefixTurn]
    split <;> rfl

/-- A turn at the first item of `back` takes it out or moves over it. -/
theorem items_prefixTurn (keyPrefix : List Char) {s : Walk Item cacheCost}
    {front back : List (List Char × ItemTuple Item)} {e : List Char × ItemTuple Item}
    (hitems : s.1.items = front ++ e :: back) (hit : s.2 = some e.1) :
    (prefixTurn keyPrefix s).1.items =
        (front ++ if e.1.take keyPrefix.length = keyPrefix then [] else [e]) ++ back ∧
      (prefixTurn keyPrefix s).2 = (Assoc.keys back).head? := by
  obtain ⟨l, it⟩ := s
  obtain rfl : it = some e.1 := hit
  refine ⟨?_, l.nextIt_of_split hitems⟩
  show (if e.1.take keyPrefix.length = keyPrefix then l.erase e.1 else l).items = _
  have hl : l.items = front ++ e :: back := hitems
  split
  · have hnd := l.nodup
    rw [hl] at hnd
    rw [LinkedLru.items_erase, hl, Assoc.without_split hnd, List.append_nil]
  · rw [hl, List.append_assoc, List.singleton_append]

/-- The turns of the prefix loop from an iterator on: `front` has been passed, `back` is
still to come, and the iterator is at the first key of `back`. -/
theorem items_removeLoop (keyPrefix : List Char) (n : ℕ) (s : Walk Item cacheCost)
    (front back : List (List Char × ItemTuple Item)) (hitems : s.1.items = front ++ back)
    (hit : s.2 = (Assoc.keys back).head?) (hn : back.length ≤ n) :
    (removeLoop keyPrefix n s.1 s.2).items =
      front ++ back.filter fun e => e.1.take keyPrefix.length ≠ keyPrefix := by
  induction n generalizing s front back with
  | zero =>
    have hnil : back = [] := List.length_eq_zero_iff.mp (by omega)
    subst hnil
    simpa [removeLoop] using hitems
  | succ n ih =>
    cases back with
    | nil =>
      rw [hit]
      simpa [removeLoop] using hitems
    | cons e back =>
      obtain ⟨hturn, hnext⟩ := items_prefixTurn keyPrefix hitems hit
      rw [removeLoop_succ, ih _ _ back hturn hnext (by simpa using hn)]
      by_cases hpre : e.1.take keyPrefix.length = keyPrefix
      · simp [hpre]
      · simp [hpre]

theorem maxSize_removeLoop (keyPrefix : List Char) (n : ℕ)
    (l : LinkedLru (List Char) (ItemTuple Item) cacheCost) (it : Option (List Char)) :
    (removeLoop keyPrefix n l it).maxSize = l.maxSize := by
  induction n generalizing l it with
  | zero => rfl
  | succ n ih =>
    cases it with
    | none => rfl
    | some key =>
      unfold removeLoop
      dsimp only
      split
      · rw [ih, LinkedLru.maxSize_erase]
      · rw [ih]

@[simp] theorem maxSize_removeKeysWithPrefix (c : InMemoryCache Item cacheCost)
    (keyPrefix : List Char) :
    (c.removeKeysWithPrefix keyPrefix).itemTuples.maxSize = c.itemTuples.maxSize :=
  maxSize_removeLoop _ _ _ _

@[simp] theorem maxSize_remove (c : InMemoryCache Item cacheCost) (key : List Char) :
    (c.remove key).itemTuples.maxSize = c.itemTuples.maxSize :=
  LinkedLru.maxSize_erase _ _

/-- A prefix removal keeps exactly the items whose key has another start, in order. -/
theorem items_removeKeysWithPrefix (c : InMemoryCache Item cacheCost) (keyPrefix : List Char) :
    (c.removeKeysWithPrefix keyPrefix).itemTuples.items =
      c.itemTuples.items.filter fun e => e.1.take keyPrefix.length ≠ keyPrefix := by
  have hloop := items_removeLoop keyPrefix c.itemTuples.items.length
    (c.itemTuples, c.itemTuples.begin) [] c.itemTuples.items rfl c.itemTuples.begin_eq le_rfl
  exact hloop

theorem held_removeKeysWithPrefix (c : InMemoryCache Item cacheCost)
    (keyPrefix key : List Char) :
    held (c.removeKeysWithPrefix keyPrefix) key =
      if key.take keyPrefix.length = keyPrefix then none else held c key := by
  have hfilter := Assoc.valueOf_filter c.itemTuples.items
    (fun key => decide (key.take keyPrefix.length ≠ keyPrefix)) key
  unfold held
  rw [items_removeKeysWithPrefix, hfilter]
  by_cases h : key.take keyPrefix.length = keyPrefix
  · simp [h]
  · simp [h]

theorem lists_removeKeysWithPrefix (c : InMemoryCache Item cacheCost) (keyPrefix : List Char)
    (t : ℤ) (key : List Char) :
    Lists (c.removeKeysWithPrefix keyPrefix) t key ↔ Lists c t key := Iff.rfl

theorem held_remove (c : InMemoryCache Item cacheCost) (key other : List Char) :
    held (c.remove key) other = if other = key then none else held c other := by
  unfold held remove
  rw [LinkedLru.items_erase]
  split
  · rename_i h
    rw [h, Assoc.valueOf_without_self]
  · rename_i h
    exact Assoc.valueOf_without_ne _ h

theorem lists_remove (c : InMemoryCache Item cacheCost) (key other : List Char) (t : ℤ) :
    Lists (c.remove key) t other ↔ Lists c t other := Iff.rfl

/-! ## Reading -/

/-- The cache after a lookup has promoted the key. -/
def promoted (c : InMemoryCache Item cacheCost) (key : List Char) :
    InMemoryCache Item cacheCost :=
  { c with itemTuples := (c.itemTuples.find key).1 }

@[simp] theorem held_promoted (c : InMemoryCache Item cacheCost) (key other : List Char) :
    held (promoted c key) other = held c other := by
  unfold held promoted
  rw [LinkedLru.items_find, Recency.valueOf_touch]

@[simp] theorem lists_promoted (c : InMemoryCache Item cacheCost) (key other : List Char)
    (t : ℤ) : Lists (promoted c key) t other ↔ Lists c t other := Iff.rfl

theorem get_of_held_none {c : InMemoryCache Item cacheCost} (clock : Clock) {key : List Char}
    (h : held c key = none) : c.get clock key = (promoted c key, none, clock) := by
  have hnot : key ∉ Assoc.keys c.itemTuples.items := (Assoc.valueOf_eq_none _ _).mp h
  unfold InMemoryCache.get promoted
  simp [hnot, LinkedLru.valueAt, LruCache.valueAt]

/-- `Get` of a held key: the item, or a purge of the whole bucket of its expiry time. -/
theorem get_of_held {c : InMemoryCache Item cacheCost} (clock : Clock) {key : List Char}
    {tuple : ItemTuple Item} (h : held c key = some tuple) :
    c.get clock key =
      if tuple.expiry < clock.now then
        ((promoted c key).purgeExpiredAt tuple.expiry, none, clock.rest)
      else (promoted c key, tuple.item, clock.rest) := by
  have hmem : key ∈ Assoc.keys c.itemTuples.items := Assoc.mem_keys_of_valueOf h
  have hval : (c.itemTuples.find key).1.valueAt (some key) = some tuple := by
    rw [LinkedLru.valueAt_some, LinkedLru.items_find, Recency.valueOf_touch]
    exact h
  unfold InMemoryCache.get promoted
  simp only [LinkedLru.find_it, hmem, if_true, hval]

@[simp] theorem maxSize_get (c : InMemoryCache Item cacheCost) (clock : Clock)
    (key : List Char) : (c.get clock key).1.itemTuples.maxSize = c.itemTuples.maxSize := by
  have hpromoted : (promoted c key).itemTuples.maxSize = c.itemTuples.maxSize :=
    LinkedLru.maxSize_find _ _
  cases h : held c key with
  | none => rw [get_of_held_none clock h, hpromoted]
  | some tuple =>
    rw [get_of_held clock h]
    split
    · rw [maxSize_purgeExpiredAt, hpromoted]
    · exact hpromoted

end InMemoryCache

end OlpEdgeSdk.Analysis

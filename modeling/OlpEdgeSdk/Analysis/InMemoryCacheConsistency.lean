import OlpEdgeSdk.Analysis.InMemoryCacheRetention
import OlpEdgeSdk.Base.Runs

/-!
# When the expiry index agrees with the items

The index should list a key under a time exactly when the key holds an item that expires then.
It is only ever written by a `Put` of a new key and by a purge, so every other way in which an
item that expires is lost or replaced leaves an entry behind. `index_agrees_iff` says for every
run, under any clock, when the two agree in every state: iff every call keeps the index
(`KeepsIndex`), that is, no item that expires is removed, evicted, or overwritten by one with
another deadline.

A purge keeps the two in step whatever the clock says (`agrees_purgeExpiredAt`), so the
conditions are on `Put` and on the two removals only.
-/

set_option autoImplicit false

namespace OlpEdgeSdk.Analysis

open OlpEdgeSdk.Model OlpEdgeSdk.Base OlpEdgeSdk.Interface

namespace InMemoryCache

open OlpEdgeSdk.Model.InMemoryCache

variable {Item : Type} {cacheCost : ItemTuple Item → UInt64} {c : InMemoryCache Item cacheCost}

/-! ## The two sides -/

/-- When the item of a key expires, if there is one that does. -/
def expiresAt (c : InMemoryCache Item cacheCost) (key : List Char) : Option ℤ :=
  (held c key).bind fun tuple => if tuple.expiry = timeMax then none else some tuple.expiry

/-- The index agrees with the items: a key is listed under exactly the time at which its item
expires, at most once, and no bucket is empty. -/
structure IndexAgrees (c : InMemoryCache Item cacheCost) : Prop where
  lists_iff : ∀ t key, Lists c t key ↔
    ∃ tuple, held c key = some tuple ∧ tuple.expiry = t ∧ t ≠ timeMax
  listed_once : ∀ t, ((c.bucket t).map ItemTuple.key).Nodup
  no_empty_bucket : ∀ t, c.itemExpiries.find t ≠ some []

theorem expiresAt_eq_some {key : List Char} {t : ℤ} :
    expiresAt c key = some t ↔
      ∃ tuple, held c key = some tuple ∧ tuple.expiry = t ∧ t ≠ timeMax := by
  unfold expiresAt
  cases held c key with
  | none => simp
  | some tuple =>
    simp only [Option.bind_some, Option.some.injEq, exists_eq_left']
    split
    · rename_i hmax
      simp [hmax, eq_comm]
    · rename_i hmax
      constructor
      · intro h
        obtain rfl := Option.some.inj h
        exact ⟨rfl, hmax⟩
      · rintro ⟨rfl, -⟩
        rfl

theorem IndexAgrees.lists (h : IndexAgrees c) (t : ℤ) (key : List Char) :
    Lists c t key ↔ expiresAt c key = some t := by
  rw [h.lists_iff, expiresAt_eq_some]

/-- **Frame.** A change that leaves the index alone keeps the agreement iff every key keeps the
time at which its item expires. -/
theorem agrees_iff_of_index_eq {c' : InMemoryCache Item cacheCost} (h : IndexAgrees c)
    (hindex : c'.itemExpiries = c.itemExpiries) :
    IndexAgrees c' ↔ ∀ key, expiresAt c' key = expiresAt c key := by
  have hlists : ∀ t key, Lists c' t key ↔ expiresAt c key = some t := by
    intro t key
    rw [← h.lists]
    unfold Lists bucket
    rw [hindex]
  constructor
  · intro h' key
    apply Option.ext
    intro t
    rw [← h'.lists, hlists]
  · intro hkeys
    refine ⟨fun t key => ?_, fun t => ?_, fun t => ?_⟩
    · rw [hlists, ← hkeys, expiresAt_eq_some]
    · unfold bucket
      rw [hindex]
      exact h.listed_once t
    · rw [hindex]
      exact h.no_empty_bucket t

/-! ## Purging -/

/-- **Purging a bucket keeps the agreement**: the keys it lists are those whose items expire
then. -/
theorem agrees_purgeExpiredAt (h : IndexAgrees c) (t : ℤ) : IndexAgrees (c.purgeExpiredAt t) := by
  refine ⟨fun t' key => ?_, fun t' => ?_, fun t' => ?_⟩
  · rw [lists_purgeExpiredAt]
    simp only [held_purgeExpiredAt]
    constructor
    · rintro ⟨hne, hlists⟩
      obtain ⟨tuple, hheld, rfl, hmax⟩ := (h.lists_iff t' key).mp hlists
      refine ⟨tuple, ⟨hheld, fun hl => ?_⟩, rfl, hmax⟩
      obtain ⟨tuple', hheld', hexpiry, -⟩ := (h.lists_iff t key).mp hl
      obtain rfl := Option.some.inj (hheld.symm.trans hheld')
      exact hne hexpiry
    · rintro ⟨tuple, ⟨hheld, hnot⟩, hexpiry, hmax⟩
      have hlists := (h.lists_iff t' key).mpr ⟨tuple, hheld, hexpiry, hmax⟩
      exact ⟨fun heq => hnot (heq ▸ hlists), hlists⟩
  · rw [bucket_purgeExpiredAt]
    split
    · exact List.nodup_nil
    · exact h.listed_once t'
  · simp only [purgeExpiredAt, SortedMap.find_erase]
    split
    · exact Option.some_ne_none _ |>.symm
    · exact h.no_empty_bucket t'

theorem agrees_purgeExpired (h : IndexAgrees c) (clock : Clock) :
    IndexAgrees (c.purgeExpired clock).1 := by
  have hfold : ∀ (expired : List ℤ) (c : InMemoryCache Item cacheCost), IndexAgrees c →
      IndexAgrees (expired.foldl purgeExpiredAt c) := by
    intro expired
    induction expired with
    | nil => exact fun _ h => h
    | cons t expired ih => exact fun c h => ih _ (agrees_purgeExpiredAt h t)
  exact hfold _ c h

theorem agrees_get (h : IndexAgrees c) (clock : Clock) (key : List Char) :
    IndexAgrees (c.get clock key).1 := by
  have hpromoted : IndexAgrees (promoted c key) := by
    have hindex : (promoted c key).itemExpiries = c.itemExpiries := rfl
    apply (agrees_iff_of_index_eq h hindex).mpr
    intro other
    simp [expiresAt]
  cases hheld : held c key with
  | none =>
    rw [get_of_held_none clock hheld]
    exact hpromoted
  | some tuple =>
    rw [get_of_held clock hheld]
    split
    · exact agrees_purgeExpiredAt hpromoted tuple.expiry
    · exact hpromoted

/-! ## Storing -/

/-- The items an LRU cache drops to make room for a tuple. -/
def makesRoom (c : InMemoryCache Item cacheCost) (tuple : ItemTuple Item) :
    List (List Char × ItemTuple Item) :=
  (Recency.insertOrAssign cacheCost c.itemTuples.maxSize c.itemTuples.items tuple.key
    tuple).2

/-- Without empty buckets the eviction callback leaves the index as it is. -/
theorem itemExpiries_onEviction (h : ∀ t, c.itemExpiries.find t ≠ some []) (key : List Char)
    (value : ItemTuple Item) : (c.onEviction key value).itemExpiries = c.itemExpiries := by
  unfold onEviction
  dsimp only
  split
  · split
    · rename_i hlength
      apply SortedMap.erase_of_find_none
      unfold bucket at hlength
      cases hfind : c.itemExpiries.find value.expiry with
      | none => rfl
      | some tuples =>
        rw [hfind, Option.getD_some, List.length_eq_zero_iff] at hlength
        exact absurd (hlength ▸ hfind) (h value.expiry)
    · rfl
  · rfl

theorem itemExpiries_store (h : IndexAgrees c) (tuple : ItemTuple Item) :
    (c.store tuple).1.itemExpiries = c.itemExpiries := by
  have hfold : ∀ (evicted : List (List Char × ItemTuple Item))
      (c : InMemoryCache Item cacheCost), (∀ t, c.itemExpiries.find t ≠ some []) →
      (evicted.foldl (fun c e => c.onEviction e.1 e.2) c).itemExpiries = c.itemExpiries := by
    intro evicted
    induction evicted with
    | nil => exact fun _ _ => rfl
    | cons e evicted ih =>
      intro c hc
      have hsame := itemExpiries_onEviction hc e.1 e.2
      rw [List.foldl_cons, ih _ (by rwa [hsame]), hsame]
  exact hfold _ _ h.no_empty_bucket

/-- What a key holds after a tuple has been stored, evictions included. -/
theorem held_store_eq (c : InMemoryCache Item cacheCost) (tuple : ItemTuple Item)
    (key : List Char) :
    held (c.store tuple).1 key =
      if Recency.refuses cacheCost c.itemTuples.maxSize c.itemTuples.items tuple.key tuple
      then held c key
      else if key ∈ Assoc.keys (makesRoom c tuple) then none
      else if tuple.key = key then some tuple else held c key := by
  unfold held makesRoom
  rw [itemTuples_store, LinkedLru.items_insertOrAssign]
  unfold Recency.insertOrAssign
  split
  · rfl
  · rw [Recency.valueOf_shrink_eq (Assoc.nodup_put c.itemTuples.nodup _ _), Assoc.valueOf_put]
    split
    · rfl
    · rfl

/-- An item that is dropped for a tuple of another key was held before. -/
theorem held_of_mem_makesRoom {tuple : ItemTuple Item} {d : List Char × ItemTuple Item}
    (hd : d ∈ makesRoom c tuple) (hne : d.1 ≠ tuple.key) : held c d.1 = some d.2 := by
  unfold makesRoom Recency.insertOrAssign at hd
  split at hd
  · cases hd
  · have happend := Recency.shrink_append cacheCost c.itemTuples.maxSize
      (Assoc.put c.itemTuples.items tuple.key tuple)
    have hput : d ∈ Assoc.put c.itemTuples.items tuple.key tuple := by
      rw [← happend]
      exact List.mem_append_right _ (List.mem_reverse.mpr hd)
    have hvalue := Assoc.valueOf_of_mem (Assoc.nodup_put c.itemTuples.nodup _ _) hput
    rwa [Assoc.valueOf_put, if_neg hne.symm] at hvalue

/-- Storing a tuple leaves the expiry of every other key alone iff no item that expires is
dropped for it. -/
theorem expiresAt_store_iff (c : InMemoryCache Item cacheCost) (tuple : ItemTuple Item) :
    (∀ key, key ≠ tuple.key → expiresAt (c.store tuple).1 key = expiresAt c key) ↔
      ∀ d ∈ makesRoom c tuple, d.1 ≠ tuple.key → d.2.expiry = timeMax := by
  have hheld : ∀ key, key ≠ tuple.key → held (c.store tuple).1 key =
      if key ∈ Assoc.keys (makesRoom c tuple) then none else held c key := by
    intro key hne
    rw [held_store_eq, if_neg hne.symm]
    split
    · rename_i hrefused
      have hnone : makesRoom c tuple = [] := by simp [makesRoom, Recency.insertOrAssign, hrefused]
      simp [hnone]
    · rfl
  constructor
  · intro hkept d hd hne
    have hexpires := hkept d.1 hne
    have hmem : d.1 ∈ Assoc.keys (makesRoom c tuple) := List.mem_map_of_mem hd
    simp only [expiresAt, hheld d.1 hne, if_pos hmem, held_of_mem_makesRoom hd hne,
      Option.bind_none, Option.bind_some] at hexpires
    by_contra hmax
    rw [if_neg hmax] at hexpires
    cases hexpires
  · intro hdropped key hne
    unfold expiresAt
    rw [hheld key hne]
    split
    · rename_i hmem
      obtain ⟨d, hd, rfl⟩ := List.mem_map.mp hmem
      rw [held_of_mem_makesRoom hd hne]
      simp [hdropped d hd hne]
    · rfl

/-- An item that fits in an empty cache stays. -/
theorem held_store_new {tuple : ItemTuple Item}
    (hfits : cacheCost tuple ≤ c.itemTuples.maxSize) :
    held (c.store tuple).1 tuple.key = some tuple := by
  have hrefuses : Recency.refuses cacheCost c.itemTuples.maxSize c.itemTuples.items tuple.key
      tuple = false := by
    simp [Recency.refuses, hfits]
  have hstays : tuple.key ∉ Assoc.keys (makesRoom c tuple) := by
    unfold makesRoom Recency.insertOrAssign
    rw [hrefuses]
    exact Recency.notMem_shrink_of_front _ (Assoc.nodup_put c.itemTuples.nodup _ _) hfits
  rw [held_store_eq, hrefuses]
  simp [hstays]

/-- A tuple that assigns to its key replaces what was held, or is itself dropped. -/
theorem held_store_replaced {tuple old : ItemTuple Item} (hold : held c tuple.key = some old) :
    held (c.store tuple).1 tuple.key =
      if tuple.key ∈ Assoc.keys (makesRoom c tuple) then none else some tuple := by
  have hrefuses : Recency.refuses cacheCost c.itemTuples.maxSize c.itemTuples.items tuple.key
      tuple = false := by
    simp [Recency.refuses, Assoc.mem_keys_of_valueOf hold]
  rw [held_store_eq, hrefuses]
  simp

/-! ## `Put` -/

/-- What has to hold for a tuple to be put without leaving the index behind: no item that
expires is dropped for it, a new item does not expire at the time that stands for never, and
what it replaces has the same deadline (or none, if the tuple is too large to stay). -/
structure PutKeepsIndex (c : InMemoryCache Item cacheCost) (tuple : ItemTuple Item)
    (expires : Bool) : Prop where
  dropped : ∀ d ∈ makesRoom c tuple, d.1 ≠ tuple.key → d.2.expiry = timeMax
  new : held c tuple.key = none → cacheCost tuple ≤ c.itemTuples.maxSize → expires = true →
    tuple.expiry ≠ timeMax
  replaced : ∀ old, held c tuple.key = some old →
    tuple.key ∉ Assoc.keys (makesRoom c tuple) → tuple.expiry = old.expiry
  too_large : ∀ old, held c tuple.key = some old →
    tuple.key ∈ Assoc.keys (makesRoom c tuple) → old.expiry = timeMax

/-- A key that is not listed under its deadline can be added there. -/
theorem nodup_bucket_listExpiry {tuple : ItemTuple Item}
    (hnodup : ∀ t, ((c.bucket t).map ItemTuple.key).Nodup)
    (hnew : ¬ Lists c tuple.expiry tuple.key) (t : ℤ) :
    (((c.listExpiry tuple).bucket t).map ItemTuple.key).Nodup := by
  rw [bucket_listExpiry]
  split
  · rw [List.map_append, List.map_singleton, List.nodup_append]
    refine ⟨hnodup _, List.nodup_singleton _, ?_⟩
    rintro _ hmem _ hkey rfl
    rw [List.mem_singleton] at hkey
    obtain ⟨listed, hlisted, heq⟩ := List.mem_map.mp hmem
    exact hnew ⟨listed, hlisted, heq.trans hkey⟩
  · exact hnodup t

/-- Listing a new key under its deadline. -/
theorem agrees_listExpiry_iff (h : IndexAgrees c) {c' : InMemoryCache Item cacheCost}
    (hindex : c'.itemExpiries = c.itemExpiries) {tuple : ItemTuple Item}
    (hnew : held c tuple.key = none) (hheld : held c' tuple.key = some tuple) :
    IndexAgrees (c'.listExpiry tuple) ↔
      tuple.expiry ≠ timeMax ∧ ∀ key, key ≠ tuple.key → expiresAt c' key = expiresAt c key := by
  have hbuckets : ∀ t, c'.bucket t = c.bucket t := by
    intro t
    unfold bucket
    rw [hindex]
  have hlistsSame : ∀ t key, Lists c' t key ↔ Lists c t key := by
    intro t key
    unfold Lists
    rw [hbuckets]
  have hlists : ∀ t key, Lists (c'.listExpiry tuple) t key ↔
      expiresAt c key = some t ∨ (t = tuple.expiry ∧ tuple.key = key) := by
    intro t key
    rw [lists_listExpiry, hlistsSame, ← h.lists]
  have hsame : ∀ key, expiresAt (c'.listExpiry tuple) key = expiresAt c' key := fun _ => rfl
  have hself : expiresAt c tuple.key = none := by simp [expiresAt, hnew]
  constructor
  · intro h'
    have hlisted := (h'.lists tuple.expiry tuple.key).mp ((hlists _ _).mpr (Or.inr ⟨rfl, rfl⟩))
    obtain ⟨-, -, -, hmax⟩ := expiresAt_eq_some.mp hlisted
    refine ⟨hmax, fun key hne => Option.ext fun t => ?_⟩
    rw [← hsame, ← h'.lists, hlists]
    constructor
    · rintro (hexpires | ⟨-, heq⟩)
      · exact hexpires
      · exact absurd heq.symm hne
    · exact Or.inl
  · rintro ⟨hmax, hkeys⟩
    refine ⟨fun t key => ?_, fun t => ?_, fun t => ?_⟩
    · rw [hlists, ← expiresAt_eq_some, hsame]
      by_cases hkey : key = tuple.key
      · subst hkey
        have hexpires : expiresAt c' tuple.key = some tuple.expiry := by
          simp [expiresAt, hheld, hmax]
        rw [hself, hexpires]
        simp [eq_comm]
      · rw [hkeys key hkey]
        constructor
        · rintro (hexpires | ⟨-, heq⟩)
          · exact hexpires
          · exact absurd heq.symm hkey
        · exact Or.inl
    · refine nodup_bucket_listExpiry (fun t => ?_) ?_ t
      · rw [hbuckets]
        exact h.listed_once t
      · rw [hlistsSame, h.lists, hself]
        exact fun hlisted => nomatch hlisted
    · simp only [listExpiry, SortedMap.find_insert]
      split
      · simp
      · rw [hindex]
        exact h.no_empty_bucket t

/-- A new tuple that is too large is refused, and nothing changes. -/
theorem store_of_refused {tuple : ItemTuple Item} (hheld : held c tuple.key = none)
    (hover : ¬ cacheCost tuple ≤ c.itemTuples.maxSize) :
    (c.store tuple).2 = false ∧ ∀ key, expiresAt (c.store tuple).1 key = expiresAt c key := by
  have hnot : tuple.key ∉ Assoc.keys c.itemTuples.items := (Assoc.valueOf_eq_none _ _).mp hheld
  have hrefuses : Recency.refuses cacheCost c.itemTuples.maxSize c.itemTuples.items
      tuple.key tuple = true := by
    simp [Recency.refuses, hnot, UInt64.not_le.mp hover]
  constructor
  · rw [Bool.eq_false_iff]
    intro htrue
    exact hover ((store_inserted c tuple).mp htrue).2
  · intro key
    unfold expiresAt
    rw [held_store_eq, if_pos hrefuses]

/-- A tuple whose key is new. -/
theorem agrees_store_new_iff (h : IndexAgrees c) {tuple : ItemTuple Item} {expires : Bool}
    (hnever : expires = false → tuple.expiry = timeMax) (hheld : held c tuple.key = none) :
    IndexAgrees (if (c.store tuple).2 && expires then (c.store tuple).1.listExpiry tuple
        else (c.store tuple).1) ↔
      PutKeepsIndex c tuple expires := by
  have hindex := itemExpiries_store h tuple
  have hothers := expiresAt_store_iff c tuple
  have hframe := agrees_iff_of_index_eq h hindex
  have hinserted := store_inserted c tuple
  have hput : PutKeepsIndex c tuple expires ↔
      (∀ d ∈ makesRoom c tuple, d.1 ≠ tuple.key → d.2.expiry = timeMax) ∧
        (cacheCost tuple ≤ c.itemTuples.maxSize → expires = true → tuple.expiry ≠ timeMax) := by
    constructor
    · exact fun hput => ⟨hput.dropped, hput.new hheld⟩
    · rintro ⟨hdropped, hnew⟩
      exact ⟨hdropped, fun _ => hnew, fun old hold => by simp [hheld] at hold,
        fun old hold => by simp [hheld] at hold⟩
  rw [hput]
  by_cases hfits : cacheCost tuple ≤ c.itemTuples.maxSize
  · have hflag : (c.store tuple).2 = true := hinserted.mpr ⟨hheld, hfits⟩
    have hstored := held_store_new hfits
    cases expires with
    | true =>
      rw [hflag]
      simp only [Bool.and_self, if_true]
      rw [agrees_listExpiry_iff h hindex hheld hstored, hothers]
      simp [hfits, and_comm]
    | false =>
      have hmax := hnever rfl
      simp only [Bool.and_false, Bool.false_eq_true, if_false]
      rw [hframe]
      constructor
      · intro hkeys
        exact ⟨hothers.mp fun key _ => hkeys key, fun _ => False.elim⟩
      · rintro ⟨hdropped, -⟩ key
        by_cases hkey : key = tuple.key
        · subst hkey
          simp [expiresAt, hstored, hheld, hmax]
        · exact hothers.mpr hdropped key hkey
  · obtain ⟨hflag, hsame⟩ := store_of_refused hheld hfits
    rw [hflag]
    simp only [Bool.false_and, Bool.false_eq_true, if_false]
    rw [hframe]
    exact iff_of_true hsame ⟨hothers.mp fun key _ => hsame key, fun hle => absurd hle hfits⟩

/-- When a tuple that replaces another one leaves the expiry of its key as it was. -/
theorem expiresAt_store_self_iff {tuple old : ItemTuple Item}
    (hheld : held c tuple.key = some old) :
    expiresAt (c.store tuple).1 tuple.key = expiresAt c tuple.key ↔
      (tuple.key ∉ Assoc.keys (makesRoom c tuple) → tuple.expiry = old.expiry) ∧
        (tuple.key ∈ Assoc.keys (makesRoom c tuple) → old.expiry = timeMax) := by
  unfold expiresAt
  rw [held_store_replaced hheld, hheld]
  by_cases hmem : tuple.key ∈ Assoc.keys (makesRoom c tuple)
  · simp [hmem]
  · simp only [hmem, if_false, Option.bind_some, not_false_eq_true, forall_const, false_implies,
      and_true]
    by_cases hmax : tuple.expiry = timeMax
    · by_cases hmax' : old.expiry = timeMax
      · simp [hmax, hmax']
      · simp [hmax, hmax', Ne.symm hmax']
    · by_cases hmax' : old.expiry = timeMax
      · simp [hmax', hmax]
      · simp [hmax, hmax']

/-- A tuple that replaces the one its key holds. -/
theorem agrees_store_assigned_iff (h : IndexAgrees c) {tuple old : ItemTuple Item}
    (expires : Bool) (hheld : held c tuple.key = some old) :
    IndexAgrees (if (c.store tuple).2 && expires then (c.store tuple).1.listExpiry tuple
        else (c.store tuple).1) ↔
      PutKeepsIndex c tuple expires := by
  have hothers := expiresAt_store_iff c tuple
  have hself := expiresAt_store_self_iff hheld
  have hflag : (c.store tuple).2 = false := by
    rw [Bool.eq_false_iff]
    intro htrue
    have hnone := ((store_inserted c tuple).mp htrue).1
    rw [hheld] at hnone
    cases hnone
  rw [hflag]
  simp only [Bool.false_and, Bool.false_eq_true, if_false]
  rw [agrees_iff_of_index_eq h (itemExpiries_store h tuple)]
  constructor
  · intro hkeys
    obtain ⟨hreplaced, hlarge⟩ := hself.mp (hkeys tuple.key)
    refine ⟨hothers.mp fun key _ => hkeys key, fun hnone => by simp [hheld] at hnone, ?_, ?_⟩
    · intro old' hold'
      rw [← Option.some.inj (hheld.symm.trans hold')]
      exact hreplaced
    · intro old' hold'
      rw [← Option.some.inj (hheld.symm.trans hold')]
      exact hlarge
  · intro hput key
    by_cases hkey : key = tuple.key
    · subst hkey
      exact hself.mpr ⟨hput.replaced old hheld, hput.too_large old hheld⟩
    · exact hothers.mpr hput.dropped key hkey

/-- **A stored tuple keeps the agreement iff it leaves no entry behind.** -/
theorem agrees_store_iff (h : IndexAgrees c) (tuple : ItemTuple Item) {expires : Bool}
    (hnever : expires = false → tuple.expiry = timeMax) :
    IndexAgrees (if (c.store tuple).2 && expires then (c.store tuple).1.listExpiry tuple
        else (c.store tuple).1) ↔
      PutKeepsIndex c tuple expires := by
  cases hheld : held c tuple.key with
  | none => exact agrees_store_new_iff h hnever hheld
  | some old => exact agrees_store_assigned_iff h expires hheld

/-! ## Every call, every run -/

/-- A call keeps the index, in a state: a `Put` does once its purge is done, and a removal does
iff nothing it removes expires. -/
def KeepsIndex (s : InMemoryCache Item cacheCost × Clock) : Call Item → Prop
  | .put key item expireSeconds size =>
    Accepts expireSeconds → PutKeepsIndex (s.1.purgeExpired s.2).1
      (stored s key item expireSeconds size) (hasExpiry expireSeconds)
  | .get _ => True
  | .remove key => expiresAt s.1 key = none
  | .removeKeysWithPrefix keyPrefix =>
    ∀ key, key.take keyPrefix.length = keyPrefix → expiresAt s.1 key = none
  | .clear => True

/-- The empty cache with a clock to read. -/
def initial (cacheCost : ItemTuple Item → UInt64) (maxSize : UInt64) (clock : Clock) :
    InMemoryCache Item cacheCost × Clock :=
  (InMemoryCache.new maxSize, clock)

theorem agrees_new (maxSize : UInt64) :
    IndexAgrees (InMemoryCache.new maxSize : InMemoryCache Item cacheCost) where
  lists_iff t key := by
    have hheld : held (InMemoryCache.new maxSize : InMemoryCache Item cacheCost) key = none := rfl
    have hbucket : (InMemoryCache.new maxSize : InMemoryCache Item cacheCost).bucket t = [] := rfl
    simp [Lists, hheld, hbucket]
  listed_once _ := List.nodup_nil
  no_empty_bucket _ := Option.some_ne_none _ |>.symm

theorem agrees_put_iff {s : InMemoryCache Item cacheCost × Clock} (h : IndexAgrees s.1)
    (key : List Char) (item : Option Item) (expireSeconds : ℤ) (size : UInt64) :
    IndexAgrees (s.1.put s.2 key item expireSeconds size).1 ↔
      KeepsIndex s (.put key item expireSeconds size) := by
  have hpurged := agrees_purgeExpired h s.2
  by_cases haccepts : Accepts expireSeconds
  · have hnever : hasExpiry expireSeconds = false →
        (stored s key item expireSeconds size).expiry = timeMax := by
      intro hexp
      simp [stored, deadline, hexp]
    rw [put_of_accepts s key item size haccepts]
    dsimp only
    rw [agrees_store_iff hpurged _ hnever]
    exact ⟨fun hput _ => hput, fun hput => hput haccepts⟩
  · rw [put_of_not_accepts s key item size haccepts]
    exact ⟨fun _ hacc => absurd hacc haccepts, fun _ => hpurged⟩

/-- **The step.** From a state in which index and items agree, a call leads to one in which they
do iff it keeps the index. -/
theorem agrees_step_iff {s : InMemoryCache Item cacheCost × Clock} (h : IndexAgrees s.1)
    (call : Call Item) : IndexAgrees (step s call).1 ↔ KeepsIndex s call := by
  cases call with
  | put key item expireSeconds size => exact agrees_put_iff h key item expireSeconds size
  | get key => exact iff_of_true (agrees_get h s.2 key) trivial
  | remove key =>
    have hindex : (s.1.remove key).itemExpiries = s.1.itemExpiries := rfl
    have hexpires : ∀ other, expiresAt (s.1.remove key) other =
        if other = key then none else expiresAt s.1 other := by
      intro other
      unfold expiresAt
      rw [held_remove]
      split
      · rfl
      · rfl
    refine (agrees_iff_of_index_eq h hindex).trans ?_
    simp only [hexpires]
    constructor
    · intro hkeys
      have hkey := hkeys key
      rw [if_pos rfl] at hkey
      exact hkey.symm
    · intro hnone other
      split
      · rename_i heq
        rw [heq]
        exact hnone.symm
      · rfl
  | removeKeysWithPrefix keyPrefix =>
    have hindex : (s.1.removeKeysWithPrefix keyPrefix).itemExpiries = s.1.itemExpiries := rfl
    have hexpires : ∀ key, expiresAt (s.1.removeKeysWithPrefix keyPrefix) key =
        if key.take keyPrefix.length = keyPrefix then none else expiresAt s.1 key := by
      intro key
      unfold expiresAt
      rw [held_removeKeysWithPrefix]
      split
      · rfl
      · rfl
    refine (agrees_iff_of_index_eq h hindex).trans ?_
    simp only [hexpires]
    constructor
    · intro hkeys key hpre
      have hkey := hkeys key
      rw [if_pos hpre] at hkey
      exact hkey.symm
    · intro hnone key
      split
      · rename_i hpre
        exact (hnone key hpre).symm
      · rfl
  | clear => exact iff_of_true (agrees_new s.1.itemTuples.maxSize) trivial

/-- **When index and items agree.** For every capacity, clock and run of calls: in every state
of the run the index lists exactly the items that expire, each once and without empty buckets,
iff every call of the run keeps the index. -/
theorem index_agrees_iff (maxSize : UInt64) (clock : Clock) (calls : List (Call Item)) :
    (∀ before, before <+: calls →
        IndexAgrees (run (initial cacheCost maxSize clock) before).1) ↔
      Along (fun s call => some (step s call)) KeepsIndex (initial cacheCost maxSize clock)
        calls :=
  forall_prefix_iff_along (fun s : InMemoryCache Item cacheCost × Clock => IndexAgrees s.1)
    (fun _ h call => agrees_step_iff h call)
    (agrees_new maxSize) calls

/-- An item that expires and is removed leaves its entry in the index. -/
theorem removed_item_stays_listed :
    ¬ IndexAgrees (run (initial (@equalityCacheCost ℕ) 10 fun _ => 0)
      [.put ['k'] (some 1) 10 1, .remove ['k']]).1 := by
  intro h
  have hlists : Lists (run (initial (@equalityCacheCost ℕ) 10 fun _ => 0)
      [.put ['k'] (some 1) 10 1, .remove ['k']]).1 10 ['k'] :=
    ⟨⟨['k'], 10, some 1, 1⟩, by decide, rfl⟩
  rw [h.lists] at hlists
  exact absurd hlists (by decide)

end InMemoryCache

end OlpEdgeSdk.Analysis

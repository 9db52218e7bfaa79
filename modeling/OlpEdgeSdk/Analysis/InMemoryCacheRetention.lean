import OlpEdgeSdk.Analysis.InMemoryCacheIndex

/-!
# When the memory tier keeps an item until it expires

An item that was put and not touched since should be there until its deadline, as long as
nothing is evicted. A purge erases by key, so it is lost before its deadline exactly when a
bucket of an earlier expiry time still lists its key, which an earlier item of the key leaves
behind when it is overwritten or removed. `get_returns_put_iff` says so for every run: the
item survives every continuation iff no such bucket is left when it is put.

The invariant of the forward direction is `Retained`: the deadline is over, or the item is
held and every bucket that lists its key is at the deadline or later.
-/

set_option autoImplicit false

namespace OlpEdgeSdk.Analysis.InMemoryCache

open OlpEdgeSdk.Model OlpEdgeSdk.Base OlpEdgeSdk.Interface
open OlpEdgeSdk.Model.InMemoryCache

variable {Item : Type} {cacheCost : ItemTuple Item → UInt64}

/-! ## `Put` -/

/-- `Put` goes on to store the item: it has no expiry or one in the future. -/
def Accepts (expireSeconds : ℤ) : Prop := hasExpiry expireSeconds = true → 0 < expireSeconds

instance (expireSeconds : ℤ) : Decidable (Accepts expireSeconds) :=
  inferInstanceAs (Decidable (_ → _))

/-- The second after which an item put at a time is expired. -/
def deadline (now expireSeconds : ℤ) : ℤ :=
  if hasExpiry expireSeconds then expireSeconds + now else timeMax

/-- The time at which a `Put` is made: the reading that follows its purge. -/
def putTime (s : InMemoryCache Item cacheCost × Clock) : ℤ := (s.1.purgeExpired s.2).2.now

/-- The tuple a `Put` stores. -/
def stored (s : InMemoryCache Item cacheCost × Clock) (key : List Char) (item : Option Item)
    (expireSeconds : ℤ) (size : UInt64) : ItemTuple Item :=
  ⟨key, deadline (putTime s) expireSeconds, item, size⟩

theorem deadline_of_not_hasExpiry {now expireSeconds : ℤ} (h : hasExpiry expireSeconds = false) :
    deadline now expireSeconds = expireSeconds := by
  have hmax : expireSeconds = timeMax := by simpa [hasExpiry] using h
  simp [deadline, hasExpiry, hmax]

/-- An accepted `Put`: purge, store, and list the tuple if it is new and expires. The result is
that of the store. -/
theorem put_spec (s : InMemoryCache Item cacheCost × Clock) (key : List Char)
    (item : Option Item) {expireSeconds : ℤ} (size : UInt64) (h : Accepts expireSeconds) :
    let stores := (s.1.purgeExpired s.2).1.store (stored s key item expireSeconds size)
    (s.1.put s.2 key item expireSeconds size).1 =
        (if stores.2 && hasExpiry expireSeconds then
          stores.1.listExpiry (stored s key item expireSeconds size)
        else stores.1) ∧
      (s.1.put s.2 key item expireSeconds size).2.1 = stores.2 := by
  unfold put stored putTime
  cases hexp : hasExpiry expireSeconds with
  | false => simp [deadline_of_not_hasExpiry hexp]
  | true =>
    have hpos : ¬ expireSeconds ≤ 0 := not_le.mpr (h hexp)
    simp [hpos, deadline, hexp]

theorem put_of_accepts (s : InMemoryCache Item cacheCost × Clock) (key : List Char)
    (item : Option Item) {expireSeconds : ℤ} (size : UInt64) (h : Accepts expireSeconds) :
    (s.1.put s.2 key item expireSeconds size).1 =
      let purged := (s.1.purgeExpired s.2).1
      let tuple := stored s key item expireSeconds size
      if (purged.store tuple).2 && hasExpiry expireSeconds then
        (purged.store tuple).1.listExpiry tuple
      else (purged.store tuple).1 :=
  (put_spec s key item size h).1

theorem put_of_not_accepts (s : InMemoryCache Item cacheCost × Clock) (key : List Char)
    (item : Option Item) {expireSeconds : ℤ} (size : UInt64) (h : ¬ Accepts expireSeconds) :
    s.1.put s.2 key item expireSeconds size =
      ((s.1.purgeExpired s.2).1, false, (s.1.purgeExpired s.2).2) := by
  unfold Accepts at h
  push Not at h
  obtain ⟨hexp, hpos⟩ := h
  simp [put, hexp, hpos]

theorem left_put (s : InMemoryCache Item cacheCost × Clock) (key : List Char)
    (item : Option Item) (expireSeconds : ℤ) (size : UInt64) :
    Clock.Left (s.1.purgeExpired s.2).2 (s.1.put s.2 key item expireSeconds size).2.2 := by
  unfold put
  dsimp only
  split
  · split
    · exact Clock.Left.refl _
    · exact Clock.Left.rest _
  · exact Clock.Left.refl _

@[simp] theorem maxSize_put (s : InMemoryCache Item cacheCost × Clock) (key : List Char)
    (item : Option Item) (expireSeconds : ℤ) (size : UInt64) :
    (s.1.put s.2 key item expireSeconds size).1.itemTuples.maxSize =
      s.1.itemTuples.maxSize := by
  by_cases hacc : Accepts expireSeconds
  · rw [put_of_accepts s key item size hacc]
    dsimp only
    split
    · exact (maxSize_store _ _).trans (maxSize_purgeExpired _ _)
    · exact (maxSize_store _ _).trans (maxSize_purgeExpired _ _)
  · rw [put_of_not_accepts s key item size hacc]
    exact maxSize_purgeExpired _ _

/-- An accepted `Put` succeeds iff its key is new and the item not too large. -/
theorem put_inserted (s : InMemoryCache Item cacheCost × Clock) (key : List Char)
    (item : Option Item) {expireSeconds : ℤ} (size : UInt64) (h : Accepts expireSeconds) :
    (s.1.put s.2 key item expireSeconds size).2.1 = true ↔
      held (s.1.purgeExpired s.2).1 key = none ∧
        cacheCost (stored s key item expireSeconds size) ≤ s.1.itemTuples.maxSize := by
  rw [(put_spec s key item size h).2, store_inserted, maxSize_purgeExpired]
  rfl

/-- What a key holds after a `Put`: the new tuple if it is its key, and otherwise at most
what it held before. -/
theorem held_of_held_put {s : InMemoryCache Item cacheCost × Clock} {key : List Char}
    {item : Option Item} {expireSeconds : ℤ} {size : UInt64} {other : List Char}
    {tuple : ItemTuple Item} (hacc : Accepts expireSeconds)
    (h : held (s.1.put s.2 key item expireSeconds size).1 other = some tuple) :
    (key = other ∧ tuple = stored s key item expireSeconds size) ∨
      (key ≠ other ∧ held s.1 other = some tuple) := by
  have hstore : held ((s.1.purgeExpired s.2).1.store
      (stored s key item expireSeconds size)).1 other = some tuple := by
    rw [put_of_accepts s key item size hacc] at h
    dsimp only at h
    split at h
    · rwa [held_listExpiry] at h
    · exact h
  rcases held_of_held_store hstore with ⟨heq, ht⟩ | ⟨hne, hheld⟩
  · exact Or.inl ⟨heq, ht⟩
  · exact Or.inr ⟨hne, ((held_purgeExpired s.1 s.2 other tuple).mp hheld).1⟩

/-- The items fit with the tuple that is about to be stored: nothing will be evicted. -/
def Fits (c : InMemoryCache Item cacheCost) (tuple : ItemTuple Item) : Prop :=
  Recency.weight cacheCost (Assoc.put c.itemTuples.items tuple.key tuple) ≤
    c.itemTuples.maxSize.toNat

instance (c : InMemoryCache Item cacheCost) (tuple : ItemTuple Item) : Decidable (Fits c tuple) :=
  inferInstanceAs (Decidable (_ ≤ _))

theorem held_store {c : InMemoryCache Item cacheCost} {tuple : ItemTuple Item}
    (h : Fits c tuple) (key : List Char) :
    held (c.store tuple).1 key = if tuple.key = key then some tuple else held c key := by
  unfold held
  rw [itemTuples_store, LinkedLru.items_insertOrAssign,
    Recency.insertOrAssign_of_weight_le h, Assoc.valueOf_put]

theorem held_put {s : InMemoryCache Item cacheCost × Clock} {key : List Char}
    {item : Option Item} {expireSeconds : ℤ} {size : UInt64} (h : Accepts expireSeconds)
    (hfits : Fits (s.1.purgeExpired s.2).1 (stored s key item expireSeconds size))
    (other : List Char) :
    held (s.1.put s.2 key item expireSeconds size).1 other =
      if key = other then some (stored s key item expireSeconds size)
      else held (s.1.purgeExpired s.2).1 other := by
  rw [put_of_accepts s key item size h]
  dsimp only
  split
  · rw [held_listExpiry]
    exact held_store hfits other
  · exact held_store hfits other

/-- What the buckets list after an accepted `Put`: at most its key is new, at its deadline. -/
theorem lists_put {s : InMemoryCache Item cacheCost × Clock} {key : List Char}
    {item : Option Item} {expireSeconds : ℤ} {size : UInt64} (h : Accepts expireSeconds)
    {t : ℤ} {other : List Char}
    (hlists : Lists (s.1.put s.2 key item expireSeconds size).1 t other) :
    Lists (s.1.purgeExpired s.2).1 t other ∨
      (t = deadline (putTime s) expireSeconds ∧ key = other) := by
  rw [put_of_accepts s key item size h] at hlists
  dsimp only at hlists
  split at hlists
  · rw [lists_listExpiry, lists_store] at hlists
    exact hlists
  · rw [lists_store] at hlists
    exact Or.inl hlists

theorem lists_put_of_lists {s : InMemoryCache Item cacheCost × Clock} {key : List Char}
    {item : Option Item} {expireSeconds : ℤ} {size : UInt64} (h : Accepts expireSeconds)
    {t : ℤ} {other : List Char} (hlists : Lists (s.1.purgeExpired s.2).1 t other) :
    Lists (s.1.put s.2 key item expireSeconds size).1 t other := by
  rw [put_of_accepts s key item size h]
  dsimp only
  split
  · rw [lists_listExpiry, lists_store]
    exact Or.inl hlists
  · rwa [lists_store]

/-! ## Runs -/

/-- A call that may change what a key holds, expiry apart. -/
def Touches (key : List Char) : Call Item → Prop
  | .put other _ _ _ => other = key
  | .get _ => False
  | .remove other => other = key
  | .removeKeysWithPrefix keyPrefix => key.take keyPrefix.length = keyPrefix
  | .clear => True

instance (key : List Char) (call : Call Item) : Decidable (Touches key call) :=
  match call with
  | .put _ _ _ _ => inferInstanceAs (Decidable (_ = _))
  | .get _ => inferInstanceAs (Decidable False)
  | .remove _ => inferInstanceAs (Decidable (_ = _))
  | .removeKeysWithPrefix _ => inferInstanceAs (Decidable (_ = _))
  | .clear => inferInstanceAs (Decidable True)

/-- Nothing is evicted in a call. -/
def CallFits (s : InMemoryCache Item cacheCost × Clock) : Call Item → Prop
  | .put key item expireSeconds size =>
    Accepts expireSeconds →
      Fits (s.1.purgeExpired s.2).1 (stored s key item expireSeconds size)
  | _ => True

/-- Nothing is evicted in a run. -/
def RunFits (s : InMemoryCache Item cacheCost × Clock) : List (Call Item) → Prop
  | [] => True
  | call :: calls => CallFits s call ∧ RunFits (step s call) calls

/-- The deadline of the tuple is over, or its key holds it and no bucket before the deadline
lists the key. -/
def Retained (key : List Char) (tuple : ItemTuple Item)
    (s : InMemoryCache Item cacheCost × Clock) : Prop :=
  tuple.expiry < s.2.now ∨
    (held s.1 key = some tuple ∧ ∀ t, Lists s.1 t key → tuple.expiry ≤ t)

section Steps

variable {key : List Char} {tuple : ItemTuple Item} {c : InMemoryCache Item cacheCost}
  {clock : Clock}

/-- A purge that erases a bucket of the past keeps the item, or its deadline is over. -/
theorem retained_purgeExpiredAt {t : ℤ} {later : Clock}
    (h : held c key = some tuple ∧ ∀ t, Lists c t key → tuple.expiry ≤ t)
    (ht : t < later.now) : Retained key tuple (c.purgeExpiredAt t, later) := by
  by_cases hl : Lists c t key
  · exact Or.inl (lt_of_le_of_lt (h.2 t hl) ht)
  · refine Or.inr ⟨(held_purgeExpiredAt c t key tuple).mpr ⟨h.1, hl⟩, fun t' hl' => ?_⟩
    exact h.2 t' ((lists_purgeExpiredAt c t t' key).mp hl').2

theorem retained_purgeExpired (hmono : Clock.NonDecreasing clock)
    (h : held c key = some tuple ∧ ∀ t, Lists c t key → tuple.expiry ≤ t) :
    Retained key tuple (c.purgeExpired clock) := by
  by_cases hl : ∃ t ∈ expiring c clock, Lists c t key
  · obtain ⟨t, ht, hl⟩ := hl
    exact Or.inl (lt_of_le_of_lt (h.2 t hl) (lt_now_of_mem_expiring hmono c ht))
  · push Not at hl
    refine Or.inr ⟨(held_purgeExpired c clock key tuple).mpr ⟨h.1, hl⟩, fun t' hl' => ?_⟩
    exact h.2 t' ((lists_purgeExpired c clock t' key).mp hl').2

theorem left_step (s : InMemoryCache Item cacheCost × Clock) (call : Call Item) :
    Clock.Left s.2 (step s call).2 := by
  cases call with
  | put other item expireSeconds size =>
    exact (left_purgeExpired s.1 s.2).trans (left_put s other item expireSeconds size)
  | get other =>
    cases hheld : held s.1 other with
    | none =>
      simp only [step, get_of_held_none s.2 hheld]
      exact Clock.Left.refl _
    | some t =>
      simp only [step, get_of_held s.2 hheld]
      split
      · exact Clock.Left.rest _
      · exact Clock.Left.rest _
  | remove other => exact Clock.Left.refl _
  | removeKeysWithPrefix keyPrefix => exact Clock.Left.refl _
  | clear => exact Clock.Left.refl _

theorem retained_put {s : InMemoryCache Item cacheCost × Clock} {other : List Char}
    {item : Option Item} {expireSeconds : ℤ} {size : UInt64}
    (hmono : Clock.NonDecreasing s.2) (hne : other ≠ key)
    (hfits : CallFits s (.put other item expireSeconds size))
    (h : held s.1 key = some tuple ∧ ∀ t, Lists s.1 t key → tuple.expiry ≤ t) :
    Retained key tuple (step s (.put other item expireSeconds size)) := by
  have hclock := left_put s other item expireSeconds size
  have hmono' := hmono.left (left_purgeExpired s.1 s.2)
  rcases retained_purgeExpired hmono h with hover | ⟨hheld, hlists⟩
  · exact Or.inl (lt_of_lt_of_le hover (hmono'.now_le hclock))
  · right
    by_cases hacc : Accepts expireSeconds
    · refine ⟨?_, fun t hl => ?_⟩
      · exact (held_put hacc (hfits hacc) key).trans ((if_neg hne).trans hheld)
      · rcases lists_put hacc hl with hl | ⟨-, heq⟩
        · exact hlists t hl
        · exact absurd heq hne
    · simp only [step, put_of_not_accepts s other item size hacc]
      exact ⟨hheld, hlists⟩

theorem retained_get {s : InMemoryCache Item cacheCost × Clock}
    (hmono : Clock.NonDecreasing s.2) (other : List Char)
    (h : held s.1 key = some tuple ∧ ∀ t, Lists s.1 t key → tuple.expiry ≤ t) :
    Retained key tuple (step s (.get other)) := by
  have hpromoted : held (promoted s.1 other) key = some tuple ∧
      ∀ t, Lists (promoted s.1 other) t key → tuple.expiry ≤ t := by simpa using h
  cases hheld : held s.1 other with
  | none =>
    simp only [step, get_of_held_none s.2 hheld]
    exact Or.inr hpromoted
  | some t =>
    simp only [step, get_of_held s.2 hheld]
    split
    · rename_i hlt
      have hle : s.2.now ≤ s.2.rest.now := hmono.now_le (Clock.Left.rest _)
      exact retained_purgeExpiredAt hpromoted (lt_of_lt_of_le hlt hle)
    · exact Or.inr hpromoted

/-- **Step.** A call that does not touch the key retains the item. -/
theorem retained_step {s : InMemoryCache Item cacheCost × Clock} {call : Call Item}
    (hmono : Clock.NonDecreasing s.2) (huntouched : ¬ Touches key call)
    (hfits : CallFits s call) (h : Retained key tuple s) :
    Retained key tuple (step s call) := by
  rcases h with hover | h
  · exact Or.inl (lt_of_lt_of_le hover (hmono.now_le (left_step s call)))
  · cases call with
    | put other item expireSeconds size => exact retained_put hmono huntouched hfits h
    | get other => exact retained_get hmono other h
    | remove other =>
      have hne : key ≠ other := fun heq => huntouched heq.symm
      refine Or.inr ⟨?_, h.2⟩
      exact (held_remove s.1 other key).trans ((if_neg hne).trans h.1)
    | removeKeysWithPrefix keyPrefix =>
      refine Or.inr ⟨?_, h.2⟩
      exact (held_removeKeysWithPrefix s.1 keyPrefix key).trans
        ((if_neg huntouched).trans h.1)
    | clear => exact absurd trivial huntouched

/-- **Run.** A run that does not touch the key retains the item. -/
theorem retained_run {s : InMemoryCache Item cacheCost × Clock} {calls : List (Call Item)}
    (hmono : Clock.NonDecreasing s.2) (huntouched : ∀ call ∈ calls, ¬ Touches key call)
    (hfits : RunFits s calls) (h : Retained key tuple s) :
    Retained key tuple (run s calls) := by
  induction calls generalizing s with
  | nil => exact h
  | cons call calls ih =>
    have hcall := huntouched call List.mem_cons_self
    have hrest : ∀ call ∈ calls, ¬ Touches key call :=
      fun call' hmem => huntouched call' (List.mem_cons_of_mem _ hmem)
    exact ih (hmono.left (left_step s call)) hrest hfits.2
      (retained_step hmono hcall hfits.1 h)

theorem left_run (s : InMemoryCache Item cacheCost × Clock) (calls : List (Call Item)) :
    Clock.Left s.2 (run s calls).2 := by
  induction calls generalizing s with
  | nil => exact Clock.Left.refl _
  | cons call calls ih => exact (left_step s call).trans (ih (step s call))

theorem held_of_held_get {c : InMemoryCache Item cacheCost} {clock : Clock}
    {other : List Char} (h : held (c.get clock other).1 key = some tuple) :
    held c key = some tuple := by
  cases hheld : held c other with
  | none => simpa only [get_of_held_none clock hheld, held_promoted] using h
  | some t =>
    rw [get_of_held clock hheld] at h
    split at h
    · simpa using ((held_purgeExpiredAt _ _ key tuple).mp h).1
    · simpa using h

theorem held_of_held_step {s : InMemoryCache Item cacheCost × Clock} {call : Call Item}
    (huntouched : ¬ Touches key call) (h : held (step s call).1 key = some tuple) :
    held s.1 key = some tuple := by
  cases call with
  | put other item expireSeconds size =>
    by_cases hacc : Accepts expireSeconds
    · rcases held_of_held_put hacc h with ⟨heq, -⟩ | ⟨-, hheld⟩
      · exact absurd heq huntouched
      · exact hheld
    · simp only [step, put_of_not_accepts s other item size hacc] at h
      exact ((held_purgeExpired s.1 s.2 key tuple).mp h).1
  | get other => exact held_of_held_get h
  | remove other =>
    have hne : key ≠ other := fun heq => huntouched heq.symm
    have hremove := held_remove s.1 other key
    rw [if_neg hne] at hremove
    exact hremove.symm.trans h
  | removeKeysWithPrefix keyPrefix =>
    have hpre : ¬ key.take keyPrefix.length = keyPrefix := huntouched
    have hremove := held_removeKeysWithPrefix s.1 keyPrefix key
    rw [if_neg hpre] at hremove
    exact hremove.symm.trans h
  | clear => exact absurd trivial huntouched

theorem held_of_held_run {s : InMemoryCache Item cacheCost × Clock} {calls : List (Call Item)}
    (huntouched : ∀ call ∈ calls, ¬ Touches key call)
    (h : held (run s calls).1 key = some tuple) : held s.1 key = some tuple := by
  induction calls generalizing s with
  | nil => exact h
  | cons call calls ih =>
    have hrest : ∀ call ∈ calls, ¬ Touches key call :=
      fun call' hmem => huntouched call' (List.mem_cons_of_mem _ hmem)
    exact held_of_held_step (huntouched call List.mem_cons_self) (ih hrest h)

/-- `Get` returns the item of the tuple the key holds, or nothing. -/
theorem get_eq_none_or (s : InMemoryCache Item cacheCost × Clock) (key : List Char) :
    (s.1.get s.2 key).2.1 = none ∨
      ∃ tuple, held s.1 key = some tuple ∧ (s.1.get s.2 key).2.1 = tuple.item := by
  cases hheld : held s.1 key with
  | none => exact Or.inl (by rw [get_of_held_none s.2 hheld])
  | some tuple =>
    rw [get_of_held s.2 hheld]
    split
    · exact Or.inl rfl
    · exact Or.inr ⟨tuple, rfl, rfl⟩

theorem get_of_retained {s : InMemoryCache Item cacheCost × Clock}
    (h : Retained key tuple s) (hnow : s.2.now ≤ tuple.expiry) :
    (s.1.get s.2 key).2.1 = tuple.item := by
  rcases h with hover | ⟨hheld, -⟩
  · exact absurd hover (not_lt.mpr hnow)
  · rw [get_of_held s.2 hheld, if_neg (not_lt.mpr hnow)]

end Steps

/-! ## A stale entry loses the item -/

/-- With a clock that stands still, a purge finds exactly the buckets of the past. -/
theorem mem_expiring_const (c : InMemoryCache Item cacheCost) (now t : ℤ) :
    t ∈ expiring c (fun _ => now) ↔ t < now ∧ t ∈ Assoc.keys c.itemExpiries.entries := by
  have hscan : ∀ (buckets : List (ℤ × List (ItemTuple Item))),
      (Assoc.keys buckets).Pairwise (· < ·) →
      (t ∈ (expiredKeys buckets fun _ => now).1 ↔ t < now ∧ t ∈ Assoc.keys buckets) := by
    intro buckets hsorted
    induction buckets with
    | nil => simp [expiredKeys]
    | cons b buckets ih =>
      obtain ⟨hhead, htail⟩ := List.pairwise_cons.mp hsorted
      unfold expiredKeys
      split
      · rename_i hlt
        have hlt' : b.1 < now := hlt
        have ih' : t ∈ (expiredKeys buckets (Clock.rest fun _ => now)).1 ↔
            t < now ∧ t ∈ Assoc.keys buckets := ih htail
        simp only [List.mem_cons, Assoc.keys_cons, ih']
        constructor
        · rintro (rfl | ⟨ht, hmem⟩)
          · exact ⟨hlt', Or.inl rfl⟩
          · exact ⟨ht, Or.inr hmem⟩
        · rintro ⟨ht, rfl | hmem⟩
          · exact Or.inl rfl
          · exact Or.inr ⟨ht, hmem⟩
      · rename_i hge
        have hge' : now ≤ b.1 := not_lt.mp hge
        simp only [List.not_mem_nil, Assoc.keys_cons, List.mem_cons, false_iff, not_and]
        rintro ht (rfl | hmem)
        · exact absurd ht (not_lt.mpr hge')
        · exact absurd (ht.trans_le hge') (not_lt.mpr (hhead t hmem).le)
  exact hscan _ c.itemExpiries.sorted

theorem mem_keys_of_lists {c : InMemoryCache Item cacheCost} {t : ℤ} {key : List Char}
    (h : Lists c t key) : t ∈ Assoc.keys c.itemExpiries.entries := by
  obtain ⟨tuple, hmem, -⟩ := h
  unfold bucket at hmem
  cases hfind : c.itemExpiries.find t with
  | none => simp [hfind] at hmem
  | some tuples => exact Assoc.mem_keys_of_valueOf hfind

/-- A key different from a given one. -/
def otherKey (key : List Char) : List Char := 'x' :: key

theorem otherKey_ne (key : List Char) : otherKey key ≠ key := by
  intro h
  have hlen := congrArg List.length h
  simp [otherKey] at hlen

/-- **A stale entry loses the item**: once its time is past, the purge of a `Put` of another
key, even one that is rejected, erases the listed key. -/
theorem get_none_of_lists {c : InMemoryCache Item cacheCost} {t now : ℤ} {key : List Char}
    (h : Lists c t key) (hlt : t < now) :
    let s := run (c, fun _ => now) [.put (otherKey key) none 0 0]
    (s.1.get s.2 key).2.1 = none ∧ s.2.now = now := by
  have hrejected : ¬ Accepts 0 := by decide
  have hstep : run (c, fun _ => now) [.put (otherKey key) none 0 0] =
      c.purgeExpired fun _ => now := by
    have hput := put_of_not_accepts (c, fun _ => now) (otherKey key) none 0 hrejected
    simp only [run, List.foldl_cons, List.foldl_nil, step]
    rw [hput]
  have hheld : held (c.purgeExpired fun _ => now).1 key = none := by
    cases hheld : held (c.purgeExpired fun _ => now).1 key with
    | none => rfl
    | some tuple =>
      have hkept := ((held_purgeExpired c _ key tuple).mp hheld).2 t
      exact absurd h (hkept ((mem_expiring_const c now t).mpr ⟨hlt, mem_keys_of_lists h⟩))
  have hclock : (c.purgeExpired fun _ => now).2.now = now := by
    obtain ⟨n, hn⟩ := left_purgeExpired c fun _ => now
    rw [hn]
    rfl
  dsimp only
  rw [hstep, get_of_held_none _ hheld]
  exact ⟨rfl, hclock⟩

/-! ## The exact condition -/

theorem putTime_le_deadline {s : InMemoryCache Item cacheCost × Clock}
    (hmono : Clock.NonDecreasing s.2) {expireSeconds : ℤ} (hpos : 0 < expireSeconds) :
    putTime s ≤ deadline (putTime s) expireSeconds := by
  have hmax : putTime s ≤ timeMax :=
    (hmono.left (left_purgeExpired s.1 s.2)).le_timeMax 0
  unfold deadline
  split
  · omega
  · exact hmax

theorem callFits_of_runFits_append {s : InMemoryCache Item cacheCost × Clock}
    {calls : List (Call Item)} {call : Call Item} (h : RunFits s (calls ++ [call])) :
    CallFits (run s calls) call := by
  induction calls generalizing s with
  | nil => exact h.1
  | cons first calls ih => exact ih h.2

/-- A `Put` that fits retains its item when no earlier bucket lists its key. -/
theorem retained_of_put {s : InMemoryCache Item cacheCost × Clock} {key : List Char}
    {item : Option Item} {expireSeconds : ℤ} {size : UInt64} (hacc : Accepts expireSeconds)
    (hfits : CallFits s (.put key item expireSeconds size)) (later : Clock)
    (hcond : ∀ t, Lists (s.1.purgeExpired s.2).1 t key →
      deadline (putTime s) expireSeconds ≤ t) :
    Retained key (stored s key item expireSeconds size)
      ((s.1.put s.2 key item expireSeconds size).1, later) := by
  refine Or.inr ⟨?_, fun t hl => ?_⟩
  · exact (held_put hacc (hfits hacc) key).trans (if_pos rfl)
  · rcases lists_put hacc hl with hl | ⟨rfl, -⟩
    · exact hcond t hl
    · exact le_rfl

/-- The cache at the beginning, with the cost function written out. -/
abbrev empty (cacheCost : ItemTuple Item → UInt64) (maxSize : UInt64) :
    InMemoryCache Item cacheCost :=
  InMemoryCache.new maxSize

/-- **An item that was put and not touched since is returned until its deadline, in every
run, iff no earlier bucket of the index lists its key when it is put** (an empty item apart,
which cannot be told from a missing one). The run up to the `Put` and the calls after it are
arbitrary, as long as nothing is evicted; the clock after the `Put` is any clock that does
not go back, from the time of the `Put` on.
SOURCE: InMemoryCache.cpp:63-147 -/
theorem get_returns_put_iff (maxSize : UInt64) (clock : Clock)
    (hmono : Clock.NonDecreasing clock) (before : List (Call Item)) (key : List Char)
    (item : Option Item) (expireSeconds : ℤ) (size : UInt64) (hpos : 0 < expireSeconds)
    (hrange : deadline (putTime (run (empty cacheCost maxSize, clock) before)) expireSeconds ≤
      timeMax)
    (hfits : RunFits (empty cacheCost maxSize, clock)
      (before ++ [.put key item expireSeconds size])) :
    let s := run (empty cacheCost maxSize, clock) before
    (∀ (later : Clock) (after : List (Call Item)), Clock.NonDecreasing later →
        putTime s ≤ later.now → (∀ call ∈ after, ¬ Touches key call) →
        RunFits ((s.1.put s.2 key item expireSeconds size).1, later) after →
        let s' := run ((s.1.put s.2 key item expireSeconds size).1, later) after
        s'.2.now ≤ deadline (putTime s) expireSeconds → (s'.1.get s'.2 key).2.1 = item) ↔
      item = none ∨
        ∀ t, Lists (s.1.purgeExpired s.2).1 t key → deadline (putTime s) expireSeconds ≤ t := by
  intro s
  have hacc : Accepts expireSeconds := fun _ => hpos
  have hcall : CallFits s (.put key item expireSeconds size) :=
    callFits_of_runFits_append hfits
  constructor
  · intro hreturns
    cases item with
    | none => exact Or.inl rfl
    | some item =>
      refine Or.inr fun t hlists => ?_
      by_contra hlt
      have hlists' : Lists (s.1.put s.2 key (some item) expireSeconds size).1 t key :=
        lists_put_of_lists hacc hlists
      -- the clock jumps to the deadline, and another key is put and rejected
      have hlater := hreturns (fun _ => deadline (putTime s) expireSeconds)
        [.put (otherKey key) none 0 0] (Clock.NonDecreasing.const hrange)
        (putTime_le_deadline (hmono.left (left_run _ before)) hpos)
        (by simpa [Touches] using otherKey_ne key)
        ⟨fun h => absurd h (by decide), trivial⟩
      obtain ⟨hnone, hnow⟩ := get_none_of_lists hlists' (not_le.mp hlt)
      have hsome := hlater hnow.le
      rw [hnone] at hsome
      cases hsome
  · intro hcond later after hlater htime huntouched hfitsAfter s' hnow
    rcases hcond with rfl | hcond
    · -- an empty item: whatever is left of the tuple, nothing is returned
      rcases get_eq_none_or s' key with hnone | ⟨tuple, hheld, hget⟩
      · exact hnone
      · have hput := held_of_held_run huntouched hheld
        have hstored := (held_put hacc (hcall hacc) key).trans (if_pos rfl)
        rw [hget, Option.some.inj (hput.symm.trans hstored)]
        rfl
    · exact get_of_retained
        (retained_run hlater huntouched hfitsAfter (retained_of_put hacc hcall later hcond)) hnow

/-- The first item of a key is returned at its deadline, after a `Put` of another key. -/
theorem get_returns_first_put :
    let c : InMemoryCache ℕ presetModelSizeCacheCost := InMemoryCache.new 10
    let s := run ((c.put (fun _ => 0) ['k'] (some 1) 100 1).1, fun _ => 100)
      [.put ['o'] (some 2) 5 1]
    (s.1.get s.2 ['k']).2.1 = some 1 := by
  have hiff := @get_returns_put_iff ℕ presetModelSizeCacheCost 10 (fun _ => 0)
    (Clock.NonDecreasing.const (by decide)) [] ['k'] (some 1) 100 1 (by decide) (by decide)
    ⟨fun _ => by decide, trivial⟩
  refine hiff.mpr (Or.inr fun t hl => ?_) (fun _ => 100) [.put ['o'] (some 2) 5 1]
    (Clock.NonDecreasing.const (by decide)) (by decide) ?_ ⟨fun _ => by decide, trivial⟩
    (by decide)
  · obtain ⟨tuple, hmem, -⟩ := hl
    exact absurd hmem List.not_mem_nil
  · intro call hmem
    rw [List.mem_singleton.mp hmem]
    decide

/-- The item that overwrites one with an earlier deadline is lost at that deadline: put with
a lifetime of 1 and again with one of 100, both at 0, the key has nothing to return at 2,
once another key has been put. -/
theorem get_loses_overwriting_put :
    let c : InMemoryCache ℕ presetModelSizeCacheCost := InMemoryCache.new 10
    let s := run (c, fun _ => 0) [.put ['k'] (some 1) 1 1]
    let s' := run ((s.1.put s.2 ['k'] (some 2) 100 1).1, fun _ => 2)
      [.put ['o'] (some 3) 100 1]
    RunFits (c, fun _ => 0) [.put ['k'] (some 1) 1 1, .put ['k'] (some 2) 100 1] ∧
      RunFits ((s.1.put s.2 ['k'] (some 2) 100 1).1, fun _ => 2) [.put ['o'] (some 3) 100 1] ∧
      Clock.NonDecreasing (fun _ => 0) ∧ Clock.NonDecreasing (fun _ => 2) ∧
      ¬ Touches ['k'] (Call.put ['o'] (some 3) 100 1) ∧
      putTime s = 0 ∧ s'.2.now = 2 ∧ deadline (putTime s) 100 = 100 ∧
      (s'.1.get s'.2 ['k']).2.1 = none := by
  refine ⟨⟨fun _ => by decide, fun _ => by decide, trivial⟩, ⟨fun _ => by decide, trivial⟩,
    Clock.NonDecreasing.const (by decide), Clock.NonDecreasing.const (by decide), ?_, ?_, ?_,
    ?_, ?_⟩
  all_goals decide

end OlpEdgeSdk.Analysis.InMemoryCache

import OlpEdgeSdk.Analysis.DefaultCacheFrame

/-!
# A `Put` that fails

A `Put` that returns false should leave no trace. It makes up to three writes, the item in
memory, the deadline on disk and the text on disk, and returns at the first that fails without
taking the others back; and the memory tier reports a failure for an item it has assigned to a
key that it holds.

`failedPut_spec` says what a failed `Put` leaves of the two tiers, `LeavesNoTrace` is the
condition on what they held before, and `failed_put_traceless_iff` the result.
-/

set_option autoImplicit false

namespace OlpEdgeSdk.Analysis.DefaultCache

open OlpEdgeSdk.Model OlpEdgeSdk.Base OlpEdgeSdk.Interface
open OlpEdgeSdk.Model.DefaultCache OlpEdgeSdk.Analysis.InMemoryCache

variable {Obj : Type}

/-! ## What the memory tier remembers -/

/-- The value that the memory tier answers with for a key, and the last time at which it
does. -/
def remembers (now : ℤ) (memory : Option (MemoryTier Obj)) (key : List Char) :
    Option (Held Obj × ℤ) :=
  (heldIn memory key).bind fun tuple =>
    if now ≤ tuple.expiry then tuple.item.map fun v => (v, min tuple.expiry timeMax) else none

/-- What is remembered is answered up to its last time. -/
theorem answer_eq_remembers {now t : ℤ} (memory : Option (MemoryTier Obj)) (key : List Char)
    (hlow : now ≤ t) (hhigh : t ≤ timeMax) :
    answer t memory key =
      (remembers now memory key).bind fun r => if t ≤ r.2 then some r.1 else none := by
  unfold answer remembers
  cases heldIn memory key with
  | none => rfl
  | some tuple =>
    simp only [Option.bind_some]
    by_cases hlive : t ≤ tuple.expiry
    · have hnow : now ≤ tuple.expiry := hlow.trans hlive
      have hlast : t ≤ min tuple.expiry timeMax := le_min hlive hhigh
      cases tuple.item with
      | none => simp [hlive, hnow]
      | some value => simp [hlive, hnow, hlast]
    · have hlast : ¬ t ≤ min tuple.expiry timeMax := fun h => hlive (h.trans (min_le_left _ _))
      by_cases hnow : now ≤ tuple.expiry
      · cases tuple.item with
        | none => simp [hlive]
        | some value => simp [hlive, hnow, hlast]
      · simp [hlive, hnow]

theorem remembers_last {now : ℤ} {memory : Option (MemoryTier Obj)} {key : List Char}
    {value : Held Obj} {last : ℤ} (hnow : now ≤ timeMax)
    (h : remembers now memory key = some (value, last)) : now ≤ last ∧ last ≤ timeMax := by
  obtain ⟨tuple, -, hlive⟩ := Option.bind_eq_some_iff.mp h
  split at hlive
  · rename_i hexpiry
    obtain ⟨v, -, hpair⟩ := Option.map_eq_some_iff.mp hlive
    rw [← (Prod.mk.inj hpair).2]
    exact ⟨le_min hexpiry hnow, min_le_right _ _⟩
  · cases hlive

/-- Two memory tiers answer the same for a key at every later time iff they remember the same
for it. -/
theorem answer_eq_iff_remembers {now : ℤ} (hnow : now ≤ timeMax)
    {memory memory' : Option (MemoryTier Obj)} {key : List Char} :
    (∀ t, now ≤ t → t ≤ timeMax → answer t memory' key = answer t memory key) ↔
      remembers now memory' key = remembers now memory key := by
  constructor
  · intro h
    -- whichever is remembered longer is answered when the other one no longer is
    have hnotLater : ∀ {a b : Option (MemoryTier Obj)} {v v' : Held Obj} {last last' : ℤ},
        remembers now a key = some (v, last) → remembers now b key = some (v', last') →
        (∀ t, now ≤ t → t ≤ timeMax → answer t a key = answer t b key) → ¬ last < last' := by
      intro a b v v' last last' ha hb hab hlt
      have hlast' := remembers_last hnow hb
      have hlater := hab last' hlast'.1 hlast'.2
      rw [answer_eq_remembers a key hlast'.1 hlast'.2, ha,
        answer_eq_remembers b key hlast'.1 hlast'.2, hb] at hlater
      have hle : last' ≤ last ∧ v = v' := by simpa using hlater
      exact not_le.mpr hlt hle.1
    have hfirst := h now le_rfl hnow
    rw [answer_eq_remembers memory' key le_rfl hnow,
      answer_eq_remembers memory key le_rfl hnow] at hfirst
    cases hafter : remembers now memory' key with
    | none =>
      cases hbefore : remembers now memory key with
      | none => rfl
      | some r =>
        rw [hafter, hbefore] at hfirst
        simp [(remembers_last hnow hbefore).1] at hfirst
    | some r' =>
      cases hbefore : remembers now memory key with
      | none =>
        rw [hafter, hbefore] at hfirst
        simp [(remembers_last hnow hafter).1] at hfirst
      | some r =>
        obtain ⟨v', last'⟩ := r'
        obtain ⟨v, last⟩ := r
        rw [hafter, hbefore] at hfirst
        obtain rfl : v' = v := by
          simpa [(remembers_last hnow hafter).1, (remembers_last hnow hbefore).1] using hfirst
        have hle := hnotLater hafter hbefore h
        have hge := hnotLater hbefore hafter fun t hlow hhigh => (h t hlow hhigh).symm
        rw [le_antisymm (not_lt.mp hge) (not_lt.mp hle)]
  · intro h t hlow hhigh
    rw [answer_eq_remembers memory' key hlow hhigh, answer_eq_remembers memory key hlow hhigh, h]

/-! ## The memory half -/

section

variable {now e : ℤ} {memory : Option (MemoryTier Obj)} {key : List Char}
  {value : Option (Held Obj)} {size : ℕ}

/-- The memory tier stores the item of a `Put`: it can expire, and the key is held or the item
not too large. -/
def Stores (now : ℤ) (memory : Option (MemoryTier Obj)) (key : List Char)
    (value : Option (Held Obj)) (e : ℤ) (size : ℕ) : Prop :=
  ∃ m ∈ memory, Accepts e ∧
    Recency.refuses presetModelSizeCacheCost m.itemTuples.maxSize
      (m.purgeExpired (atTime now)).1.itemTuples.items key
      (stored (m, atTime now) key value e (UInt64.ofNat size)) = false

/-- A `Put` evicts the item of a key. -/
def Drops (now : ℤ) (memory : Option (MemoryTier Obj)) (key : List Char)
    (value : Option (Held Obj)) (e : ℤ) (size : ℕ) (other : List Char) : Prop :=
  ∃ m ∈ memory, Accepts e ∧ other ∈ Assoc.keys (makesRoom (m.purgeExpired (atTime now)).1
    (stored (m, atTime now) key value e (UInt64.ofNat size)))

theorem held_put_eq (m : MemoryTier Obj) (haccepts : Accepts e) (other : List Char) :
    held (m.put (atTime now) key value e (UInt64.ofNat size)).1 other =
      held ((m.purgeExpired (atTime now)).1.store
        (stored (m, atTime now) key value e (UInt64.ofNat size))).1 other := by
  rw [put_of_accepts (m, atTime now) key value (UInt64.ofNat size) haccepts]
  dsimp only
  split
  · rw [held_listExpiry]
  · rfl

/-- Of another key the purge and the eviction leave what they do. -/
theorem heldIn_putIn_other {other : List Char} (hne : other ≠ key)
    (tuple : ItemTuple (Held Obj)) :
    heldIn (putIn now memory key value e size) other = some tuple ↔
      heldIn memory other = some tuple ∧
        (∀ t < now, ¬ ListsIn memory t other) ∧ ¬ Drops now memory key value e size other := by
  cases memory with
  | none => simp [heldIn, putIn]
  | some m =>
    simp only [heldIn, putIn, Option.map_some, Option.bind_some, lists_of_listsIn, Drops,
      Option.mem_some_iff, exists_eq_left']
    rw [← and_assoc, ← held_purge_iff]
    by_cases haccepts : Accepts e
    · have hkey : (stored (m, atTime now) key value e (UInt64.ofNat size)).key = key := rfl
      rw [held_put_eq m haccepts, held_store_eq, hkey, if_neg hne.symm]
      split
      · rename_i hrefused
        have hnone : makesRoom (m.purgeExpired (atTime now)).1
            (stored (m, atTime now) key value e (UInt64.ofNat size)) = [] := by
          unfold makesRoom Recency.insertOrAssign
          rw [hkey, if_pos hrefused]
        simp [hnone]
      · split
        · rename_i hdropped
          simp [haccepts, hdropped]
        · rename_i hkept
          simp [haccepts, hkept]
    · rw [put_of_not_accepts (m, atTime now) key value (UInt64.ofNat size) haccepts]
      simp [haccepts]

/-- Its own key holds the new item, or nothing if the item is too large to stay. -/
theorem heldIn_putIn_self (hstores : Stores now memory key value e size)
    (tuple : ItemTuple (Held Obj)) :
    heldIn (putIn now memory key value e size) key = some tuple ↔
      ¬ Drops now memory key value e size key ∧
        tuple = ⟨key, deadline now e, value, UInt64.ofNat size⟩ := by
  obtain ⟨m, rfl, haccepts, hstored⟩ := hstores
  have htuple : stored (m, atTime now) key value e (UInt64.ofNat size) =
      ⟨key, deadline now e, value, UInt64.ofNat size⟩ := by
    rw [stored, putTime_atTime]
  simp only [heldIn, putIn, Option.map_some, Option.bind_some, Drops, Option.mem_some_iff,
    exists_eq_left']
  rw [held_put_eq m haccepts, held_store_eq, maxSize_purgeExpired]
  rw [htuple] at hstored ⊢
  rw [hstored, if_neg Bool.false_ne_true]
  split
  · rename_i hdropped
    simp [haccepts, hdropped]
  · rename_i hkept
    simp [haccepts, hkept, eq_comm]

/-- A key whose item is not stored is purged, if its bucket is. -/
theorem heldIn_putIn_refused (hnot : ¬ Stores now memory key value e size)
    (tuple : ItemTuple (Held Obj)) :
    heldIn (putIn now memory key value e size) key = some tuple ↔
      heldIn memory key = some tuple ∧ ∀ t < now, ¬ ListsIn memory t key := by
  cases memory with
  | none => simp [heldIn, putIn]
  | some m =>
    simp only [heldIn, putIn, Option.map_some, Option.bind_some, lists_of_listsIn]
    rw [← held_purge_iff]
    by_cases haccepts : Accepts e
    · have hrefused : Recency.refuses presetModelSizeCacheCost
          (m.purgeExpired (atTime now)).1.itemTuples.maxSize
          (m.purgeExpired (atTime now)).1.itemTuples.items key
          (stored (m, atTime now) key value e (UInt64.ofNat size)) = true := by
        rw [maxSize_purgeExpired, ← Bool.not_eq_false]
        exact fun hstored => hnot ⟨m, rfl, haccepts, hstored⟩
      have hkey : (stored (m, atTime now) key value e (UInt64.ofNat size)).key = key := rfl
      rw [held_put_eq m haccepts, held_store_eq, hkey, if_pos hrefused]
    · rw [put_of_not_accepts (m, atTime now) key value (UInt64.ofNat size) haccepts]

end

/-! ## What a failed `Put` leaves -/

/-- The deadline of an item is written to disk: the memory tier has admitted the item, and the
first write succeeds. -/
def StoresDeadline (now : ℤ) (memory : Option (MemoryTier Obj)) (disk : Option DiskCache)
    (key : List Char) (value : Option (Held Obj)) (e : ℤ) (size : ℕ) : Prop :=
  Admits now memory key value e size ∧ e < timeMax ∧
    ∃ d ∈ disk, d.database.isSome = true ∧ d.writes 0 = true

section

variable {now e : ℤ} {memory : Option (MemoryTier Obj)} {disk : Option DiskCache}
  {key encoded : List Char} {value : Option (Held Obj)}

theorem putMemory_eq (c : DefaultCache Obj) (size : ℕ) :
    ∃ ok, c.putMemory (atTime now) key value e size =
        ({ c with memoryCache := putIn now c.memoryCache key value e size }, ok, atTime now) ∧
      (ok = true ↔ Admits now c.memoryCache key value e size) := by
  rw [← taken_iff_admits]
  obtain ⟨isOpen, memory, disk⟩ := c
  cases memory with
  | none =>
    refine ⟨true, rfl, iff_of_true rfl ?_⟩
    rintro m ⟨⟩
  | some m =>
    refine ⟨(m.put (atTime now) key value e (UInt64.ofNat size)).2.1, ?_, ?_⟩
    · have hclock := clock_put m now key value e (UInt64.ofNat size)
      simp only [putMemory, putIn, Option.map_some, hclock]
    · simp [Taken]

/-- One write leaves every entry as it is, or puts the text in its own. -/
theorem get_diskPut (d : DiskCache) (entry text other : List Char) :
    (d.put entry text).1.get other =
      if d.database.isSome = true ∧ d.writes 0 = true ∧ other = entry then some text
      else d.get other := by
  unfold DiskCache.put
  cases hdatabase : d.database with
  | none => simp
  | some db =>
    cases hwrites : d.writes 0 with
    | false => simp [DiskCache.write, DiskCache.get, hwrites, hdatabase]
    | true => simp [DiskCache.write, DiskCache.get, hwrites, hdatabase, SortedMap.find_insert]

theorem diskPut_ok (d : DiskCache) (entry text : List Char) :
    (d.put entry text).2 = true ↔ d.database.isSome = true ∧ d.writes 0 = true := by
  unfold DiskCache.put
  cases d.database with
  | none => simp
  | some db => simp [DiskCache.write]

theorem get_diskPut_of_failed {d : DiskCache} {entry text : List Char}
    (h : (d.put entry text).2 = false) (other : List Char) :
    (d.put entry text).1.get other = d.get other := by
  have hnot : ¬ (d.database.isSome = true ∧ d.writes 0 = true) := by
    rw [← diskPut_ok d entry text, h]
    exact Bool.false_ne_true
  rw [get_diskPut, if_neg fun hwritten => hnot ⟨hwritten.1, hwritten.2.1⟩]

/-- **A failed `Put`** does to the memory tier what its memory half does, and to the disk at
most the write of the deadline. -/
theorem failedPut_spec
    (hfails : ((⟨true, memory, disk⟩ : DefaultCache Obj).putEncoded (atTime now) key value
      encoded e).2.1 = false) :
    ∃ disk', ((⟨true, memory, disk⟩ : DefaultCache Obj).putEncoded (atTime now) key value
        encoded e).1 = ⟨true, putIn now memory key value e encoded.length, disk'⟩ ∧
      (StoresDeadline now memory disk key value e encoded.length →
        disk'.bind (·.get (createExpiryKey key)) = some (decimal (e + now))) ∧
      ∀ entry, (StoresDeadline now memory disk key value e encoded.length →
          entry ≠ createExpiryKey key) →
        disk'.bind (·.get entry) = disk.bind (·.get entry) := by
  obtain ⟨ok, hmemory, hok⟩ : ∃ ok, (⟨true, memory, disk⟩ : DefaultCache Obj).putMemory
      (atTime now) key value e encoded.length =
        (⟨true, putIn now memory key value e encoded.length, disk⟩, ok, atTime now) ∧
      (ok = true ↔ Admits now memory key value e encoded.length) := putMemory_eq _ _
  unfold putEncoded at hfails ⊢
  simp only [if_true, hmemory] at hfails ⊢
  cases ok with
  | false =>
    have hnot : ¬ StoresDeadline now memory disk key value e encoded.length :=
      fun h => Bool.false_ne_true (hok.mpr h.1)
    exact ⟨disk, rfl, fun h => absurd h hnot, fun _ _ => rfl⟩
  | true =>
    simp only [if_true] at hfails ⊢
    cases disk with
    | none => simp [putDisk] at hfails
    | some d =>
      by_cases he : e < timeMax
      · -- the deadline first
        have hstores : StoresDeadline now memory (some d) key value e encoded.length ↔
            (d.put (createExpiryKey key) (decimal (e + now))).2 = true := by
          rw [diskPut_ok]
          simp [StoresDeadline, he, hok.mp rfl]
        have hexpiry : storeExpiry key d e (atTime now) =
            ((d.put (createExpiryKey key) (decimal (e + now))).1,
              (d.put (createExpiryKey key) (decimal (e + now))).2, atTime now) := rfl
        simp only [putDisk, he, if_true, hexpiry] at hfails ⊢
        by_cases hdeadline : (d.put (createExpiryKey key) (decimal (e + now))).2 = true
        · have hwritten := (diskPut_ok _ _ _).mp hdeadline
          simp only [if_pos hdeadline] at hfails ⊢
          refine ⟨_, rfl, fun _ => ?_, fun entry hentry => ?_⟩
          · change DiskCache.get _ _ = _
            rw [get_diskPut_of_failed hfails, get_diskPut, if_pos ⟨hwritten.1, hwritten.2, rfl⟩]
          · have hne := hentry (hstores.mpr hdeadline)
            change DiskCache.get _ _ = DiskCache.get _ _
            rw [get_diskPut_of_failed hfails, get_diskPut, if_neg fun h => hne h.2.2]
        · simp only [if_neg hdeadline]
          refine ⟨_, rfl, fun h => absurd (hstores.mp h) hdeadline, fun entry _ => ?_⟩
          exact get_diskPut_of_failed (Bool.eq_false_iff.mpr hdeadline) entry
      · simp only [putDisk, he, if_false] at hfails ⊢
        refine ⟨_, rfl, fun h => absurd h.2.1 he, fun entry _ => ?_⟩
        exact get_diskPut_of_failed hfails entry

end

/-! ## No trace -/

/-- Every later read of every key returns what it would have returned without the call. -/
def Traceless (c : DefaultCache Obj) (now : ℤ) (call : Call Obj) : Prop :=
  ∀ t, now ≤ t → t ≤ timeMax → ∀ key,
    (∀ decoder, ((stepAt c (now, call)).get (atTime t) key decoder).2.1 =
      (c.get (atTime t) key decoder).2.1) ∧
    ((stepAt c (now, call)).getData (atTime t) key).2.1 = (c.getData (atTime t) key).2.1

/-- The condition under which a failed `Put` leaves no trace. Nothing that the memory tier
answers with is in a bucket of the past or makes room for the item; if it stores the item, then
it has answered with that value until that deadline before, or has not answered and the item is
too large to stay or empty; and if the deadline is written to disk, its text is what the two
entries of the key, and of the key it is written under, have shown. -/
structure LeavesNoTrace (now : ℤ) (memory : Option (MemoryTier Obj)) (disk : Option DiskCache)
    (key : List Char) (value : Option (Held Obj)) (e : ℤ) (size : ℕ) : Prop where
  spared : ∀ other, (other = key → ¬ Stores now memory key value e size) →
    answer now memory other ≠ none → ∀ t < now, ¬ ListsIn memory t other
  roomKept : ∀ other ≠ key, answer now memory other ≠ none →
    ¬ Drops now memory key value e size other
  droppedItem : Stores now memory key value e size → Drops now memory key value e size key →
    answer now memory key = none
  sameItem : Stores now memory key value e size → ¬ Drops now memory key value e size key →
    remembers now memory key = value.map fun v => (v, min (deadline now e) timeMax)
  deadlineKept : StoresDeadline now memory disk key value e size →
    silentFrom now memory key ≤ timeMax →
    (DiskItem.mk (some (decimal (e + now))) (diskItem disk key).text).shows
        (silentFrom now memory key) =
      (diskItem disk key).shows (silentFrom now memory key)
  textKept : StoresDeadline now memory disk key value e size →
    silentFrom now memory (createExpiryKey key) ≤ timeMax →
    (DiskItem.mk (diskItem disk (createExpiryKey key)).expiryText
        (some (decimal (e + now)))).shows (silentFrom now memory (createExpiryKey key)) =
      (diskItem disk (createExpiryKey key)).shows (silentFrom now memory (createExpiryKey key))

section

variable {now e : ℤ} {memory : Option (MemoryTier Obj)} {disk disk' : Option DiskCache}
  {key : List Char} {value : Option (Held Obj)} {size : ℕ}

theorem le_deadline_of_accepts (hnow : now ≤ timeMax) (h : Accepts e) : now ≤ deadline now e := by
  unfold deadline
  split
  · rename_i hexpires
    have hpos := h hexpires
    omega
  · exact hnow

/-- When the memory tier answers after a `Put` as it did before, for every key. -/
theorem memory_traceless_iff (hnow : now ≤ timeMax) :
    (∀ other t, now ≤ t → t ≤ timeMax →
        answer t (putIn now memory key value e size) other = answer t memory other) ↔
      (∀ other, (other = key → ¬ Stores now memory key value e size) →
        answer now memory other ≠ none → ∀ t < now, ¬ ListsIn memory t other) ∧
      (∀ other ≠ key, answer now memory other ≠ none →
        ¬ Drops now memory key value e size other) ∧
      (Stores now memory key value e size → Drops now memory key value e size key →
        answer now memory key = none) ∧
      (Stores now memory key value e size → ¬ Drops now memory key value e size key →
        remembers now memory key = value.map fun v => (v, min (deadline now e) timeMax)) := by
  have hothers : ∀ other, other ≠ key → ((∀ t, now ≤ t → t ≤ timeMax →
      answer t (putIn now memory key value e size) other = answer t memory other) ↔
        (answer now memory other ≠ none → (∀ t < now, ¬ ListsIn memory t other) ∧
          ¬ Drops now memory key value e size other)) :=
    fun other hne => answer_eq_iff_kept hnow (heldIn_putIn_other hne)
  have hrefused : ¬ Stores now memory key value e size → ((∀ t, now ≤ t → t ≤ timeMax →
      answer t (putIn now memory key value e size) key = answer t memory key) ↔
        (answer now memory key ≠ none → ∀ t < now, ¬ ListsIn memory t key)) :=
    fun hnot => answer_eq_iff_kept hnow (heldIn_putIn_refused hnot)
  have hdropped : Stores now memory key value e size → Drops now memory key value e size key →
      ((∀ t, now ≤ t → t ≤ timeMax →
        answer t (putIn now memory key value e size) key = answer t memory key) ↔
          answer now memory key = none) := by
    intro hstores hdrops
    have hlost : ∀ t, answer t (putIn now memory key value e size) key = none := by
      intro t
      have hnone : heldIn (putIn now memory key value e size) key = none :=
        Option.eq_none_iff_forall_ne_some.mpr fun tuple h =>
          ((heldIn_putIn_self hstores tuple).mp h).1 hdrops
      unfold answer
      rw [hnone, Option.bind_none]
    constructor
    · exact fun h => (h now le_rfl hnow).symm.trans (hlost now)
    · intro hnone t ht _
      rw [hlost t, answer_eq_none_of_le hnone ht]
  have hstored : Stores now memory key value e size → ¬ Drops now memory key value e size key →
      ((∀ t, now ≤ t → t ≤ timeMax →
        answer t (putIn now memory key value e size) key = answer t memory key) ↔
          remembers now memory key =
            value.map fun v => (v, min (deadline now e) timeMax)) := by
    intro hstores hdrops
    have hheld := (heldIn_putIn_self hstores _).mpr ⟨hdrops, rfl⟩
    have haccepts : Accepts e := by
      obtain ⟨-, -, haccepts, -⟩ := hstores
      exact haccepts
    rw [answer_eq_iff_remembers hnow, eq_comm]
    have hafter : remembers now (putIn now memory key value e size) key =
        value.map fun v => (v, min (deadline now e) timeMax) := by
      unfold remembers
      rw [hheld, Option.bind_some, if_pos (le_deadline_of_accepts hnow haccepts)]
    rw [hafter]
  constructor
  · intro h
    refine ⟨fun other hnot hanswers => ?_, fun other hne hanswers => ?_, ?_, ?_⟩
    · by_cases hkey : other = key
      · rw [hkey] at hanswers ⊢
        exact (hrefused (hnot hkey)).mp (h key) hanswers
      · exact ((hothers other hkey).mp (h other) hanswers).1
    · exact ((hothers other hne).mp (h other) hanswers).2
    · exact fun hstores hdrops => (hdropped hstores hdrops).mp (h key)
    · exact fun hstores hdrops => (hstored hstores hdrops).mp (h key)
  · rintro ⟨hspared, hroom, hself, hsame⟩ other
    by_cases hkey : other = key
    · rw [hkey]
      by_cases hstores : Stores now memory key value e size
      · by_cases hdrops : Drops now memory key value e size key
        · exact (hdropped hstores hdrops).mpr (hself hstores hdrops)
        · exact (hstored hstores hdrops).mpr (hsame hstores hdrops)
      · exact (hrefused hstores).mpr (hspared key fun _ => hstores)
    · exact (hothers other hkey).mpr fun hanswers =>
        ⟨hspared other (fun heq => absurd heq hkey) hanswers, hroom other hkey hanswers⟩

/-- When the disk shows after a failed `Put` what it did before, for every key, from when the
memory tier is silent. -/
theorem disk_traceless_iff
    (hwritten : StoresDeadline now memory disk key value e size →
      disk'.bind (·.get (createExpiryKey key)) = some (decimal (e + now)))
    (hkept : ∀ entry, (StoresDeadline now memory disk key value e size →
      entry ≠ createExpiryKey key) → disk'.bind (·.get entry) = disk.bind (·.get entry)) :
    (∀ other, silentFrom now memory other ≤ timeMax →
        (diskItem disk' other).shows (silentFrom now memory other) =
          (diskItem disk other).shows (silentFrom now memory other)) ↔
      (StoresDeadline now memory disk key value e size →
        silentFrom now memory key ≤ timeMax →
        (DiskItem.mk (some (decimal (e + now))) (diskItem disk key).text).shows
            (silentFrom now memory key) =
          (diskItem disk key).shows (silentFrom now memory key)) ∧
      (StoresDeadline now memory disk key value e size →
        silentFrom now memory (createExpiryKey key) ≤ timeMax →
        (DiskItem.mk (diskItem disk (createExpiryKey key)).expiryText
            (some (decimal (e + now)))).shows (silentFrom now memory (createExpiryKey key)) =
          (diskItem disk (createExpiryKey key)).shows
            (silentFrom now memory (createExpiryKey key))) := by
  have hself : StoresDeadline now memory disk key value e size →
      diskItem disk' key = ⟨some (decimal (e + now)), (diskItem disk key).text⟩ := fun hstores =>
    DiskItem.ext (hwritten hstores)
      (hkept key fun _ heq => createExpiryKey_ne_self key heq.symm)
  have hentry : StoresDeadline now memory disk key value e size →
      diskItem disk' (createExpiryKey key) =
        ⟨(diskItem disk (createExpiryKey key)).expiryText, some (decimal (e + now))⟩ :=
    fun hstores => DiskItem.ext (hkept _ fun _ => createExpiryKey_ne_self _) (hwritten hstores)
  constructor
  · intro h
    refine ⟨fun hstores hsilent => ?_, fun hstores hsilent => ?_⟩
    · rw [← hself hstores]
      exact h key hsilent
    · rw [← hentry hstores]
      exact h _ hsilent
  · rintro ⟨hdeadline, htext⟩ other hsilent
    by_cases hstores : StoresDeadline now memory disk key value e size
    · by_cases hkey : other = key
      · subst hkey
        rw [hself hstores]
        exact hdeadline hstores hsilent
      · by_cases hexpiryKey : other = createExpiryKey key
        · subst hexpiryKey
          rw [hentry hstores]
          exact htext hstores hsilent
        · have hitem : diskItem disk' other = diskItem disk other :=
            DiskItem.ext (hkept _ fun _ => createExpiryKey_ne hkey) (hkept _ fun _ => hexpiryKey)
          rw [hitem]
    · have hitem : diskItem disk' other = diskItem disk other :=
        DiskItem.ext (hkept _ fun h => absurd h hstores) (hkept _ fun h => absurd h hstores)
      rw [hitem]

end

/-- A cache with an empty memory tier and an empty disk whose writes fail. -/
def failingDisk : DefaultCache ℕ :=
  ⟨true, some (InMemoryCache.new 64), some ⟨some SortedMap.empty, fun _ => false⟩⟩

end OlpEdgeSdk.Analysis.DefaultCache

import OlpEdgeSdk.Analysis.DefaultCacheReads
import OlpEdgeSdk.Analysis.InMemoryCacheConsistency

/-!
# What a call does to another key

The two tiers seen from one key, while calls are made on others. `Writes` and `Sweeps` say what
a call does to the entries of the disk and to the buckets of the memory tier, and
`leaves_stepAt` that this is all it does.
-/

set_option autoImplicit false

namespace OlpEdgeSdk.Analysis.DefaultCache

open OlpEdgeSdk.Model OlpEdgeSdk.Base OlpEdgeSdk.Interface
open OlpEdgeSdk.Model.DefaultCache OlpEdgeSdk.Analysis.InMemoryCache

variable {Obj : Type}

/-! ## What a call writes and sweeps -/

/-- The two entries of a key in the database of a disk tier that is open. -/
abbrev itemOn (db : Database) (key : List Char) : DiskItem :=
  ⟨db.find (createExpiryKey key), db.find key⟩

theorem get_result_tiersOf (memory : Option (MemoryTier Obj)) (db : Database) {now : ℤ}
    (hnow : now ≤ timeMax) (key : List Char) (decoder : List Char → Option (Held Obj)) :
    ((tiersOf memory (some db)).get (atTime now) key decoder).2.1 =
      match answer now memory key with
      | some value => .ok (some value)
      | none => diskAnswer now (itemOn db key) decoder :=
  get_result memory (some ⟨some db, fun _ => true⟩) hnow key decoder

/-- A call that does not name a key: one on another key, or a removal by a prefix that the key
does not have. -/
def Other (key : List Char) : Call Obj → Prop
  | .put other _ _ _ => other ≠ key
  | .putData other _ _ => other ≠ key
  | .get other _ => other ≠ key
  | .getData other => other ≠ key
  | .remove other => other ≠ key
  | .removeKeysWithPrefix keyPrefix => ¬ keyPrefix <+: key

/-- `Get` finds the text of a key on disk expired. -/
def FindsExpired (now : ℤ) (memory : Option (MemoryTier Obj)) (db : Database)
    (key : List Char) : Prop :=
  answer now memory key = none ∧ ∃ left, timeLeft db key now = .ok left ∧ left ≤ 0

/-- `Get` finds a text on disk that has some time left. -/
def FindsText (now : ℤ) (memory : Option (MemoryTier Obj)) (db : Database) (key : List Char)
    (left : ℤ) (encoded : List Char) : Prop :=
  answer now memory key = none ∧ timeLeft db key now = .ok left ∧ 0 < left ∧
    db.find key = some encoded

/-- The memory tier takes an item for a new one: it can expire, what is held for its key is
about to be purged, and it is not too large. -/
def Admits (now : ℤ) (memory : Option (MemoryTier Obj)) (key : List Char)
    (value : Option (Held Obj)) (e : ℤ) (size : ℕ) : Prop :=
  ∀ m ∈ memory, Accepts e ∧ (∀ tuple, held m key = some tuple → ∃ t < now, Lists m t key) ∧
    presetModelSizeCacheCost (stored (m, atTime now) key value e (UInt64.ofNat size)) ≤
      m.itemTuples.maxSize

/-- What a call writes at an entry of the disk tier; nothing, if it erases the entry. -/
inductive Writes (now : ℤ) (memory : Option (MemoryTier Obj)) (db : Database) :
    Call Obj → List Char → Option (List Char) → Prop where
  | text {call : Call Obj} {key encoded : List Char} {value : Option (Held Obj)} {e : ℤ}
      (h : puts call = some (key, value, encoded, e))
      (hadmits : Admits now memory key value e encoded.length) :
      Writes now memory db call key (some encoded)
  | deadline {call : Call Obj} {key encoded : List Char} {value : Option (Held Obj)} {e : ℤ}
      (h : puts call = some (key, value, encoded, e))
      (hadmits : Admits now memory key value e encoded.length) (hexpires : e < timeMax) :
      Writes now memory db call (createExpiryKey key) (some (decimal (e + now)))
  | purgedText {call : Call Obj} {key : List Char} {decoder : List Char → Option (Held Obj)}
      (h : reads call = some (key, decoder)) (hexpired : FindsExpired now memory db key) :
      Writes now memory db call key none
  | purgedDeadline {call : Call Obj} {key : List Char}
      {decoder : List Char → Option (Held Obj)} (h : reads call = some (key, decoder))
      (hexpired : FindsExpired now memory db key) :
      Writes now memory db call (createExpiryKey key) none
  | removed (key : List Char) : Writes now memory db (.remove key) key none
  | prefixRemoved {keyPrefix entry : List Char} (hstart : keyPrefix <+: entry) :
      Writes now memory db (.removeKeysWithPrefix keyPrefix) entry none

/-- A call purges the bucket of an expiry time. -/
inductive Sweeps (now : ℤ) (memory : Option (MemoryTier Obj)) (db : Database) :
    Call Obj → ℤ → Prop where
  | put {call : Call Obj} {key encoded : List Char} {value : Option (Held Obj)} {e t : ℤ}
      (h : puts call = some (key, value, encoded, e)) (ht : t < now) :
      Sweeps now memory db call t
  | expired {call : Call Obj} {key : List Char} {decoder : List Char → Option (Held Obj)}
      {tuple : ItemTuple (Held Obj)} (h : reads call = some (key, decoder))
      (hheld : heldIn memory key = some tuple) (ht : tuple.expiry < now) :
      Sweeps now memory db call tuple.expiry
  | promoted {call : Call Obj} {key encoded : List Char}
      {decoder : List Char → Option (Held Obj)} {left t : ℤ}
      (h : reads call = some (key, decoder))
      (hfinds : FindsText now memory db key left encoded) (ht : t < now) :
      Sweeps now memory db call t

/-- A `Put` at a time would evict nothing from the memory tier. -/
def NoneDropped (now : ℤ) (memory : Option (MemoryTier Obj)) (key : List Char)
    (value : Option (Held Obj)) (e : ℤ) (size : ℕ) : Prop :=
  ∀ m ∈ memory, makesRoom (m.purgeExpired (atTime now)).1
    (stored (m, atTime now) key value e (UInt64.ofNat size)) = []

/-- The memory tier is large enough for a call to evict nothing. -/
structure EvictsNothing (now : ℤ) (memory : Option (MemoryTier Obj)) (db : Database)
    (call : Call Obj) : Prop where
  put : ∀ key value encoded e, puts call = some (key, value, encoded, e) →
    NoneDropped now memory key value e encoded.length
  promotion : ∀ key decoder left encoded, reads call = some (key, decoder) →
    FindsText now memory db key left encoded →
    NoneDropped now (lookedIn now memory key) key (decoder encoded) left encoded.length

/-! ### Along `Get` -/

/-- The way through `Get`: the memory tier, the deadline, and then the text on disk, which is
put in the memory tier. -/
theorem get_tiersOf (memory : Option (MemoryTier Obj)) (db : Database) (now : ℤ)
    (key : List Char) (decoder : List Char → Option (Held Obj)) :
    (tiersOf memory (some db)).get (atTime now) key decoder =
      match answer now memory key with
      | some value => (tiersOf (lookedIn now memory key) (some db), .ok (some value), atTime now)
      | none =>
        match timeLeft db key now with
        | .error fault => (tiersOf (lookedIn now memory key) (some db), .error fault, atTime now)
        | .ok left =>
          if left ≤ 0 then
            (tiersOf (lookedIn now memory key) (some (purgedDisk key db)), .ok none, atTime now)
          else
            match db.find key with
            | none => (tiersOf (lookedIn now memory key) (some db), .ok none, atTime now)
            | some encoded =>
              (tiersOf (putIn now (lookedIn now memory key) key (decoder encoded) left
                encoded.length) (some db), .ok (decoder encoded), atTime now) := by
  have hopen : (tiersOf memory (some db)).isOpen = true := rfl
  unfold DefaultCache.get
  rw [hopen, if_pos rfl, getMemory_tiersOf, bind_get_eq_answer]
  cases answer now memory key with
  | some value => rfl
  | none =>
    have hremaining := getRemainingExpiryTime_eq key db (fun _ => true) now
    simp only [getDisk, tiersOf, Option.map_some, hremaining]
    cases timeLeft db key now with
    | error fault => rfl
    | ok left =>
      dsimp only
      split
      · rfl
      · simp only [DiskCache.get, Option.bind_some]
        cases db.find key with
        | none => rfl
        | some encoded =>
          obtain ⟨ok, hput, -⟩ := putMemory_tiersOf (lookedIn now memory key) (some db) now key
            (decoder encoded) left encoded.length
          simp only [tiersOf, Option.map_some] at hput
          simp only [hput]

/-! ### In the memory tier -/

theorem lists_of_listsIn {m : MemoryTier Obj} {t : ℤ} {key : List Char} :
    ListsIn (some m) t key ↔ Lists m t key := by
  simp [ListsIn]

/-- A purge at a time drops the keys that a bucket of the past lists. -/
theorem held_purge_iff (m : MemoryTier Obj) (now : ℤ) (key : List Char)
    (tuple : ItemTuple (Held Obj)) :
    held (m.purgeExpired (atTime now)).1 key = some tuple ↔
      held m key = some tuple ∧ ∀ t < now, ¬ Lists m t key := by
  rw [held_purgeExpired]
  constructor
  · rintro ⟨hheld, hnot⟩
    refine ⟨hheld, fun t ht hlists => hnot t ?_ hlists⟩
    exact (mem_expiring_const m now t).mpr ⟨ht, mem_keys_of_lists hlists⟩
  · rintro ⟨hheld, hnot⟩
    exact ⟨hheld, fun t ht => hnot t ((mem_expiring_const m now t).mp ht).1⟩

theorem taken_iff_admits {now e : ℤ} {memory : Option (MemoryTier Obj)} {key : List Char}
    {value : Option (Held Obj)} {size : ℕ} :
    Taken now memory key value e size ↔ Admits now memory key value e size := by
  have hnone : ∀ m : MemoryTier Obj, held (m.purgeExpired (atTime now)).1 key = none ↔
      ∀ tuple, held m key = some tuple → ∃ t < now, Lists m t key := by
    intro m
    rw [Option.eq_none_iff_forall_ne_some]
    refine forall_congr' fun tuple => ?_
    rw [Ne, held_purge_iff]
    push Not
    rfl
  unfold Taken Admits
  refine forall₂_congr fun m _ => ?_
  by_cases haccepts : Accepts e
  · have hput := put_inserted (m, atTime now) key value (UInt64.ofNat size) haccepts
    rw [hput, hnone]
    simp [haccepts]
  · rw [put_of_not_accepts (m, atTime now) key value (UInt64.ofNat size) haccepts]
    simp [haccepts]

/-- **Frame.** A `Put` that evicts nothing does to another key what the purge does. -/
theorem heldIn_putIn {now e : ℤ} {memory : Option (MemoryTier Obj)} {key other : List Char}
    {value : Option (Held Obj)} {size : ℕ} (hne : key ≠ other)
    (hroom : NoneDropped now memory key value e size) (tuple : ItemTuple (Held Obj)) :
    heldIn (putIn now memory key value e size) other = some tuple ↔
      heldIn memory other = some tuple ∧ ∀ t < now, ¬ ListsIn memory t other := by
  cases memory with
  | none => simp [heldIn, putIn]
  | some m =>
    have hstore : held ((m.purgeExpired (atTime now)).1.store
        (stored (m, atTime now) key value e (UInt64.ofNat size))).1 other =
          held (m.purgeExpired (atTime now)).1 other := by
      have hkey : (stored (m, atTime now) key value e (UInt64.ofNat size)).key = key := rfl
      rw [held_store_eq, hroom m rfl, hkey, if_neg hne]
      simp
    have hput : held (m.put (atTime now) key value e (UInt64.ofNat size)).1 other =
        held (m.purgeExpired (atTime now)).1 other := by
      by_cases haccepts : Accepts e
      · rw [put_of_accepts (m, atTime now) key value (UInt64.ofNat size) haccepts]
        dsimp only
        split
        · rw [held_listExpiry, hstore]
        · exact hstore
      · rw [put_of_not_accepts (m, atTime now) key value (UInt64.ofNat size) haccepts]
    simp only [heldIn, putIn, Option.map_some, Option.bind_some, hput, lists_of_listsIn]
    exact held_purge_iff m now other tuple

section Lookup

variable {now : ℤ} {m : MemoryTier Obj} {key : List Char} {old : ItemTuple (Held Obj)}

/-- A lookup that finds an expired item purges its bucket. -/
theorem lookedIn_of_expired (hheld : held m key = some old) (hold : old.expiry < now) :
    lookedIn now (some m) key = some ((promoted m key).purgeExpiredAt old.expiry) := by
  have hnow : old.expiry < (atTime now).now := hold
  rw [lookedIn, Option.map_some, get_of_held (atTime now) hheld, if_pos hnow]

/-- Else a lookup only makes the key the most recent one. -/
theorem lookedIn_of_not_expired (h : ∀ old, held m key = some old → ¬ old.expiry < now) :
    lookedIn now (some m) key = some (promoted m key) := by
  rw [lookedIn, Option.map_some]
  cases hheld : held m key with
  | none => rw [get_of_held_none (atTime now) hheld]
  | some old =>
    have hnow : ¬ old.expiry < (atTime now).now := h old hheld
    rw [get_of_held (atTime now) hheld, if_neg hnow]

end Lookup

/-- **Frame.** A lookup does to another key what the purge of one bucket does. -/
theorem heldIn_lookedIn (now : ℤ) (memory : Option (MemoryTier Obj)) (key other : List Char)
    (tuple : ItemTuple (Held Obj)) :
    heldIn (lookedIn now memory key) other = some tuple ↔
      heldIn memory other = some tuple ∧ ∀ old, heldIn memory key = some old →
        old.expiry < now → ¬ ListsIn memory old.expiry other := by
  cases memory with
  | none => simp [heldIn, lookedIn]
  | some m =>
    simp only [heldIn, Option.bind_some, lists_of_listsIn]
    by_cases hexpired : ∃ old, held m key = some old ∧ old.expiry < now
    · obtain ⟨old, hheld, hold⟩ := hexpired
      rw [lookedIn_of_expired hheld hold, Option.bind_some, held_purgeExpiredAt, held_promoted,
        lists_promoted]
      simp [hheld, hold]
    · rw [lookedIn_of_not_expired fun old hheld hold => hexpired ⟨old, hheld, hold⟩,
        Option.bind_some, held_promoted]
      refine (and_iff_left fun old hheld hold => ?_).symm
      exact absurd ⟨old, hheld, hold⟩ hexpired

theorem listsIn_lookedIn (now t : ℤ) (memory : Option (MemoryTier Obj))
    (key other : List Char) :
    ListsIn (lookedIn now memory key) t other ↔
      ListsIn memory t other ∧ ∀ old, heldIn memory key = some old → old.expiry < now →
        old.expiry ≠ t := by
  cases memory with
  | none => simp [ListsIn, lookedIn]
  | some m =>
    simp only [heldIn, Option.bind_some]
    by_cases hexpired : ∃ old, held m key = some old ∧ old.expiry < now
    · obtain ⟨old, hheld, hold⟩ := hexpired
      rw [lookedIn_of_expired hheld hold, lists_of_listsIn, lists_of_listsIn,
        lists_purgeExpiredAt, lists_promoted]
      simp [hheld, hold, ne_comm, and_comm]
    · rw [lookedIn_of_not_expired fun old hheld hold => hexpired ⟨old, hheld, hold⟩,
        lists_of_listsIn, lists_of_listsIn, lists_promoted]
      refine (and_iff_left fun old hheld hold => ?_).symm
      exact absurd ⟨old, hheld, hold⟩ hexpired

/-- **Frame.** A read that puts what it finds on disk in the memory tier does to another key
what the purge does. -/
theorem heldIn_promoted {now left : ℤ} {memory : Option (MemoryTier Obj)}
    {key other : List Char} {value : Option (Held Obj)} {size : ℕ} (hne : key ≠ other)
    (hroom : NoneDropped now (lookedIn now memory key) key value left size)
    (tuple : ItemTuple (Held Obj)) :
    heldIn (putIn now (lookedIn now memory key) key value left size) other = some tuple ↔
      heldIn memory other = some tuple ∧ ∀ t < now, ¬ ListsIn memory t other := by
  rw [heldIn_putIn hne hroom, heldIn_lookedIn]
  constructor
  · rintro ⟨⟨hheld, hbucket⟩, hothers⟩
    refine ⟨hheld, fun t ht hlists => ?_⟩
    refine hothers t ht ((listsIn_lookedIn _ _ _ _ _).mpr ⟨hlists, ?_⟩)
    -- a bucket of the past that the lookup has purged already listed the key then
    rintro old hold hexpired rfl
    exact hbucket old hold hexpired hlists
  · rintro ⟨hheld, hpurged⟩
    exact ⟨⟨hheld, fun old _ hexpired => hpurged old.expiry hexpired⟩,
      fun t ht hlists => hpurged t ht ((listsIn_lookedIn _ _ _ _ _).mp hlists).1⟩

/-! ### On disk -/

/-- A removal by prefix erases every entry that has the prefix. -/
theorem find_withoutPrefix_of_prefix (db : Database) {keyPrefix entry : List Char}
    (h : keyPrefix <+: entry) : (withoutPrefix keyPrefix db).find entry = none := by
  rw [withoutPrefix, eraseAll_scan, SortedMap.find_filterKeys]
  simp [h]

/-! ### One call -/

/-- All that a call leaves of the two tiers: the disk with what it writes there, and of
another key in the memory tier what it does not sweep. -/
structure Leaves (now : ℤ) (memory : Option (MemoryTier Obj)) (db : Database)
    (call : Call Obj) (memory' : Option (MemoryTier Obj)) (db' : Database) : Prop where
  written : ∀ entry text, Writes now memory db call entry text → db'.find entry = text
  kept : ∀ entry, (∀ text, ¬ Writes now memory db call entry text) →
    db'.find entry = db.find entry
  held_iff : EvictsNothing now memory db call → ∀ key, Other key call → ∀ tuple,
    heldIn memory' key = some tuple ↔
      heldIn memory key = some tuple ∧
        ∀ t, Sweeps now memory db call t → ¬ ListsIn memory t key

section

variable {now : ℤ} {memory : Option (MemoryTier Obj)} {db : Database} {call : Call Obj}
  {key encoded : List Char}

theorem reads_of_puts {value : Option (Held Obj)} {e : ℤ}
    (h : puts call = some (key, value, encoded, e)) : reads call = none := by
  cases call with
  | put | putData => rfl
  | get | getData | remove | removeKeysWithPrefix => simp [puts] at h

theorem puts_of_reads {decoder : List Char → Option (Held Obj)}
    (h : reads call = some (key, decoder)) : puts call = none := by
  cases call with
  | get | getData => rfl
  | put | putData | remove | removeKeysWithPrefix => simp [reads] at h

theorem Other.of_puts {value : Option (Held Obj)} {e : ℤ} {other : List Char}
    (hother : Other other call) (h : puts call = some (key, value, encoded, e)) :
    key ≠ other := by
  cases call with
  | put | putData =>
    simp only [puts, Option.some.injEq, Prod.mk.injEq] at h
    rw [← h.1]
    exact hother
  | get | getData | remove | removeKeysWithPrefix => simp [puts] at h

theorem Other.of_reads {decoder : List Char → Option (Held Obj)} {other : List Char}
    (hother : Other other call) (h : reads call = some (key, decoder)) : key ≠ other := by
  cases call with
  | get | getData =>
    simp only [reads, Option.some.injEq, Prod.mk.injEq] at h
    rw [← h.1]
    exact hother
  | put | putData | remove | removeKeysWithPrefix => simp [reads] at h

/-- What a `Put` writes. -/
theorem writes_put {value : Option (Held Obj)} {e : ℤ}
    (h : puts call = some (key, value, encoded, e)) (entry : List Char)
    (text : Option (List Char)) :
    Writes now memory db call entry text ↔ Admits now memory key value e encoded.length ∧
      ((entry = key ∧ text = some encoded) ∨
        e < timeMax ∧ entry = createExpiryKey key ∧ text = some (decimal (e + now))) := by
  constructor
  · intro hwrites
    cases hwrites with
    | text h' hadmits =>
      obtain ⟨rfl, rfl, rfl, rfl⟩ := by simpa using h.symm.trans h'
      exact ⟨hadmits, Or.inl ⟨rfl, rfl⟩⟩
    | deadline h' hadmits hexpires =>
      obtain ⟨rfl, rfl, rfl, rfl⟩ := by simpa using h.symm.trans h'
      exact ⟨hadmits, Or.inr ⟨hexpires, rfl, rfl⟩⟩
    | purgedText h' | purgedDeadline h' =>
      rw [reads_of_puts h] at h'
      cases h'
    | removed | prefixRemoved => simp [puts] at h
  · rintro ⟨hadmits, ⟨rfl, rfl⟩ | ⟨hexpires, rfl, rfl⟩⟩
    · exact .text h hadmits
    · exact .deadline h hadmits hexpires

/-- What a `Get` erases. -/
theorem writes_get {decoder : List Char → Option (Held Obj)}
    (h : reads call = some (key, decoder)) (entry : List Char) (text : Option (List Char)) :
    Writes now memory db call entry text ↔ FindsExpired now memory db key ∧
      (entry = key ∨ entry = createExpiryKey key) ∧ text = none := by
  constructor
  · intro hwrites
    cases hwrites with
    | text h' | deadline h' =>
      rw [puts_of_reads h] at h'
      cases h'
    | purgedText h' hexpired =>
      obtain ⟨rfl, rfl⟩ := by simpa using h.symm.trans h'
      exact ⟨hexpired, Or.inl rfl, rfl⟩
    | purgedDeadline h' hexpired =>
      obtain ⟨rfl, rfl⟩ := by simpa using h.symm.trans h'
      exact ⟨hexpired, Or.inr rfl, rfl⟩
    | removed | prefixRemoved => simp [reads] at h
  · rintro ⟨hexpired, rfl | rfl, rfl⟩
    · exact .purgedText h hexpired
    · exact .purgedDeadline h hexpired

/-- What `Remove` erases. -/
theorem writes_remove (entry : List Char) (text : Option (List Char)) :
    Writes now memory db (.remove key) entry text ↔ entry = key ∧ text = none := by
  constructor
  · intro hwrites
    cases hwrites with
    | text h | deadline h => simp [puts] at h
    | purgedText h | purgedDeadline h => simp [reads] at h
    | removed => exact ⟨rfl, rfl⟩
  · rintro ⟨rfl, rfl⟩
    exact .removed entry

/-- What `RemoveKeysWithPrefix` erases. -/
theorem writes_removeKeysWithPrefix (entry : List Char) (text : Option (List Char)) :
    Writes now memory db (.removeKeysWithPrefix key) entry text ↔
      key <+: entry ∧ text = none := by
  constructor
  · intro hwrites
    cases hwrites with
    | text h | deadline h => simp [puts] at h
    | purgedText h | purgedDeadline h => simp [reads] at h
    | prefixRemoved hstart => exact ⟨hstart, rfl⟩
  · rintro ⟨hstart, rfl⟩
    exact .prefixRemoved hstart

/-- The removals sweep no bucket. -/
theorem not_sweeps (hputs : puts call = none) (hreads : reads call = none) (t : ℤ) :
    ¬ Sweeps now memory db call t := by
  intro hsweeps
  cases hsweeps with
  | put h =>
    rw [hputs] at h
    cases h
  | expired h | promoted h =>
    rw [hreads] at h
    cases h

theorem sweeps_put {value : Option (Held Obj)} {e : ℤ}
    (h : puts call = some (key, value, encoded, e)) (t : ℤ) :
    Sweeps now memory db call t ↔ t < now := by
  constructor
  · intro hsweeps
    cases hsweeps with
    | put _ ht => exact ht
    | expired h' _ ht => exact ht
    | promoted h' _ ht => exact ht
  · exact .put h

theorem sweeps_get {decoder : List Char → Option (Held Obj)}
    (h : reads call = some (key, decoder)) (t : ℤ) :
    Sweeps now memory db call t ↔
      (∃ tuple, heldIn memory key = some tuple ∧ tuple.expiry < now ∧ tuple.expiry = t) ∨
        (∃ left encoded, FindsText now memory db key left encoded) ∧ t < now := by
  constructor
  · intro hsweeps
    cases hsweeps with
    | put h' =>
      rw [puts_of_reads h] at h'
      cases h'
    | expired h' hheld ht =>
      obtain ⟨rfl, rfl⟩ := by simpa using h.symm.trans h'
      exact Or.inl ⟨_, hheld, ht, rfl⟩
    | promoted h' hfinds ht =>
      obtain ⟨rfl, rfl⟩ := by simpa using h.symm.trans h'
      exact Or.inr ⟨⟨_, _, hfinds⟩, ht⟩
  · rintro (⟨tuple, hheld, ht, rfl⟩ | ⟨⟨left, encoded, hfinds⟩, ht⟩)
    · exact .expired h hheld ht
    · exact .promoted h hfinds ht

/-- A read that does not get as far as the memory tier's second half sweeps what its lookup
purges. -/
theorem heldIn_of_not_promoted {decoder : List Char → Option (Held Obj)}
    (h : reads call = some (key, decoder))
    (hnot : ∀ left encoded, ¬ FindsText now memory db key left encoded) (other : List Char)
    (tuple : ItemTuple (Held Obj)) :
    heldIn (lookedIn now memory key) other = some tuple ↔
      heldIn memory other = some tuple ∧
        ∀ t, Sweeps now memory db call t → ¬ ListsIn memory t other := by
  have hsweeps : ∀ t, Sweeps now memory db call t ↔
      ∃ old, heldIn memory key = some old ∧ old.expiry < now ∧ old.expiry = t := by
    intro t
    rw [sweeps_get h]
    simp [hnot]
  simp only [heldIn_lookedIn, hsweeps]
  constructor
  · rintro ⟨hheld, hbucket⟩
    refine ⟨hheld, ?_⟩
    rintro t ⟨old, hold, hexpired, rfl⟩
    exact hbucket old hold hexpired
  · rintro ⟨hheld, hbucket⟩
    exact ⟨hheld, fun old hold hexpired => hbucket old.expiry ⟨old, hold, hexpired, rfl⟩⟩

theorem leaves_put {value : Option (Held Obj)} {e : ℤ}
    (h : puts call = some (key, value, encoded, e)) :
    ∃ memory' db', stepAt (tiersOf memory (some db)) (now, call) = tiersOf memory' (some db') ∧
      Leaves now memory db call memory' db' := by
  have hheld : EvictsNothing now memory db call → ∀ other, Other other call → ∀ tuple,
      heldIn (putIn now memory key value e encoded.length) other = some tuple ↔
        heldIn memory other = some tuple ∧
          ∀ t, Sweeps now memory db call t → ¬ ListsIn memory t other := by
    intro hevicts other hother tuple
    simp only [heldIn_putIn (hother.of_puts h) (hevicts.put _ _ _ _ h), sweeps_put h]
  unfold stepAt
  rw [step_of_puts h]
  by_cases htaken : Taken now memory key value e encoded.length
  · refine ⟨_, written now key encoded e db,
      congrArg Prod.fst (putEncoded_taken (some db) htaken), ?_, ?_, hheld⟩
    · intro entry text hwrites
      rcases ((writes_put h entry text).mp hwrites).2 with ⟨rfl, rfl⟩ | ⟨hexpires, rfl, rfl⟩
      · exact find_written_self now entry encoded e db
      · rw [find_written_expiry, if_pos hexpires]
    · intro entry hkept
      unfold written
      have hkey : entry ≠ key := by
        rintro rfl
        exact hkept _ (.text h (taken_iff_admits.mp htaken))
      rw [SortedMap.find_insert, if_neg hkey]
      split
      · rename_i hexpires
        have hdeadline : entry ≠ createExpiryKey key := by
          rintro rfl
          exact hkept _ (.deadline h (taken_iff_admits.mp htaken) hexpires)
        rw [SortedMap.find_insert, if_neg hdeadline]
      · rfl
  · refine ⟨_, db, congrArg Prod.fst (putEncoded_refused (some db) htaken), ?_, ?_, hheld⟩
    · intro entry text hwrites
      exact absurd (taken_iff_admits.mpr ((writes_put h entry text).mp hwrites).1) htaken
    · intro entry _
      rfl

theorem leaves_get {decoder : List Char → Option (Held Obj)}
    (h : reads call = some (key, decoder)) :
    ∃ memory' db', stepAt (tiersOf memory (some db)) (now, call) = tiersOf memory' (some db') ∧
      Leaves now memory db call memory' db' := by
  -- the ways that leave the disk alone
  have hsame : ∀ {memory' : Option (MemoryTier Obj)}, ¬ FindsExpired now memory db key →
      (EvictsNothing now memory db call → ∀ other, Other other call → ∀ tuple,
        heldIn memory' other = some tuple ↔ heldIn memory other = some tuple ∧
          ∀ t, Sweeps now memory db call t → ¬ ListsIn memory t other) →
      Leaves now memory db call memory' db := by
    intro memory' hnot hheld
    refine ⟨fun entry text hwrites => ?_, fun _ _ => rfl, hheld⟩
    exact absurd ((writes_get h entry text).mp hwrites).1 hnot
  unfold stepAt
  rw [step_of_reads h]
  dsimp only
  rw [get_tiersOf]
  cases hanswer : answer now memory key with
  | some value =>
    refine ⟨_, db, rfl, hsame ?_ fun _ other _ => heldIn_of_not_promoted h ?_ other⟩
    · rintro ⟨hnone, -⟩
      cases hanswer.symm.trans hnone
    · rintro left encoded ⟨hnone, -⟩
      cases hanswer.symm.trans hnone
  | none =>
    cases hleft : timeLeft db key now with
    | error fault =>
      refine ⟨_, db, rfl, hsame ?_ fun _ other _ => heldIn_of_not_promoted h ?_ other⟩
      · rintro ⟨-, left, hok, -⟩
        cases hleft.symm.trans hok
      · rintro left encoded ⟨-, hok, -⟩
        cases hleft.symm.trans hok
    | ok left =>
      have hinj : ∀ {left' : ℤ}, timeLeft db key now = .ok left' → left' = left :=
        fun hok => (Except.ok.inj (hleft.symm.trans hok)).symm
      by_cases hexpired : left ≤ 0
      · have hfinds : FindsExpired now memory db key := ⟨hanswer, left, hleft, hexpired⟩
        simp only [hexpired, if_true]
        refine ⟨_, purgedDisk key db, rfl, fun entry text hwrites => ?_, fun entry hkept => ?_,
          fun _ other _ => heldIn_of_not_promoted h ?_ other⟩
        · obtain ⟨-, hentry, rfl⟩ := (writes_get h entry text).mp hwrites
          unfold purgedDisk
          rw [SortedMap.find_erase, SortedMap.find_erase]
          rcases hentry with rfl | rfl
          · simp
          · simp
        · have hkey : entry ≠ key := by
            rintro rfl
            exact hkept _ (.purgedText h hfinds)
          have hdeadline : entry ≠ createExpiryKey key := by
            rintro rfl
            exact hkept _ (.purgedDeadline h hfinds)
          unfold purgedDisk
          rw [SortedMap.find_erase, if_neg hdeadline, SortedMap.find_erase, if_neg hkey]
        · rintro left' encoded ⟨-, hok, hpos, -⟩
          rw [hinj hok] at hpos
          exact absurd hexpired (not_le.mpr hpos)
      · have hnot : ¬ FindsExpired now memory db key := by
          rintro ⟨-, left', hok, hle⟩
          rw [hinj hok] at hle
          exact hexpired hle
        simp only [hexpired, if_false]
        cases hfind : db.find key with
        | none =>
          refine ⟨_, db, rfl, hsame hnot fun _ other _ => heldIn_of_not_promoted h ?_ other⟩
          rintro left' encoded ⟨-, -, -, hsome⟩
          cases hfind.symm.trans hsome
        | some encoded =>
          have hfinds : FindsText now memory db key left encoded :=
            ⟨hanswer, hleft, not_le.mp hexpired, hfind⟩
          refine ⟨_, db, rfl, hsame hnot fun hevicts other hother tuple => ?_⟩
          have hroom := hevicts.promotion _ _ _ _ h hfinds
          rw [heldIn_promoted (hother.of_reads h) hroom]
          have hsweeps : ∀ t, Sweeps now memory db call t ↔ t < now := by
            intro t
            rw [sweeps_get h]
            constructor
            · rintro (⟨_, _, ht, rfl⟩ | ⟨-, ht⟩)
              · exact ht
              · exact ht
            · exact fun ht => Or.inr ⟨⟨left, encoded, hfinds⟩, ht⟩
          simp only [hsweeps]

theorem leaves_remove (key : List Char) :
    ∃ memory' db', stepAt (tiersOf memory (some db)) (now, .remove key) =
        tiersOf memory' (some db') ∧
      Leaves now memory db (.remove key) memory' db' := by
  refine ⟨memory.map (InMemoryCache.remove · key), db.erase key, rfl, ?_, ?_, ?_⟩
  · intro entry text hwrites
    obtain ⟨rfl, rfl⟩ := (writes_remove entry text).mp hwrites
    rw [SortedMap.find_erase, if_pos rfl]
  · intro entry hkept
    have hkey : entry ≠ key := by
      rintro rfl
      exact hkept _ (.removed entry)
    rw [SortedMap.find_erase, if_neg hkey]
  · intro _ other hother tuple
    have hkey : other ≠ key := fun heq => hother heq.symm
    have hsweeps : ∀ t, ¬ Sweeps now memory db (.remove key) t := not_sweeps rfl rfl
    cases memory with
    | none => simp [heldIn]
    | some m => simp [heldIn, held_remove, hkey, hsweeps]

theorem leaves_removeKeysWithPrefix (keyPrefix : List Char) :
    ∃ memory' db', stepAt (tiersOf memory (some db)) (now, .removeKeysWithPrefix keyPrefix) =
        tiersOf memory' (some db') ∧
      Leaves now memory db (.removeKeysWithPrefix keyPrefix) memory' db' := by
  refine ⟨memory.map (InMemoryCache.removeKeysWithPrefix · keyPrefix),
    withoutPrefix keyPrefix db, rfl, ?_, ?_, ?_⟩
  · intro entry text hwrites
    obtain ⟨hstart, rfl⟩ := (writes_removeKeysWithPrefix entry text).mp hwrites
    exact find_withoutPrefix_of_prefix db hstart
  · intro entry hkept
    rcases find_eraseAll_scan db keyPrefix entry with hsame | ⟨hstart, -⟩
    · exact hsame
    · exact absurd (.prefixRemoved hstart) (hkept none)
  · intro _ other hother tuple
    have hstart : ¬ other.take keyPrefix.length = keyPrefix :=
      fun heq => hother (List.prefix_iff_eq_take.mpr heq.symm)
    have hsweeps : ∀ t, ¬ Sweeps now memory db (.removeKeysWithPrefix keyPrefix) t :=
      not_sweeps rfl rfl
    cases memory with
    | none => simp [heldIn]
    | some m => simp [heldIn, held_removeKeysWithPrefix, hstart, hsweeps]

/-- **Step.** Every call leaves the tiers so. -/
theorem leaves_stepAt (now : ℤ) (memory : Option (MemoryTier Obj)) (db : Database)
    (call : Call Obj) :
    ∃ memory' db', stepAt (tiersOf memory (some db)) (now, call) = tiersOf memory' (some db') ∧
      Leaves now memory db call memory' db' := by
  cases call with
  | put | putData => exact leaves_put rfl
  | get | getData => exact leaves_get rfl
  | remove key => exact leaves_remove key
  | removeKeysWithPrefix keyPrefix => exact leaves_removeKeysWithPrefix keyPrefix

end

end OlpEdgeSdk.Analysis.DefaultCache

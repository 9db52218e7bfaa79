import OlpEdgeSdk.Analysis.DefaultCacheTiers

/-!
# The tiers in time

Every configuration (memory only, disk only, both), with a disk that loses no write, and calls
that are made at a time: the clock stands still while a call is under way. `Got` lists how a
`Get` can end and `Moved` what a call can do to the tiers; every later result about deadlines
is a case analysis over the two.

The deadline of a value on disk is an entry of its own. `timeLeft` is what `Get` makes of it,
and `written` is all a `Put` does to the disk.
-/

set_option autoImplicit false

namespace OlpEdgeSdk.Analysis.DefaultCache

open OlpEdgeSdk.Model OlpEdgeSdk.Base OlpEdgeSdk.Interface
open OlpEdgeSdk.Model.DefaultCache OlpEdgeSdk.Analysis.InMemoryCache

variable {Obj : Type}

/-- An open cache with the tiers it is configured with. -/
def tiersOf (memory : Option (MemoryTier Obj)) (disk : Option Database) : DefaultCache Obj :=
  ⟨true, memory, disk.map fun db => ⟨some db, fun _ => true⟩⟩

/-- The clock of a call that is made at a time. -/
abbrev atTime (now : ℤ) : Clock := fun _ => now

theorem eq_atTime {now : ℤ} {later : Clock} (h : Clock.Left (atTime now) later) :
    later = atTime now := by
  obtain ⟨n, rfl⟩ := h
  rfl

/-! ## The memory tier -/

theorem clock_put (memory : MemoryTier Obj) (now : ℤ) (key : List Char)
    (item : Option (Held Obj)) (e : ℤ) (size : UInt64) :
    (memory.put (atTime now) key item e size).2.2 = atTime now := by
  apply eq_atTime
  exact (left_purgeExpired _ _).trans (left_put (memory, atTime now) key item e size)

theorem clock_get (memory : MemoryTier Obj) (now : ℤ) (key : List Char) :
    (memory.get (atTime now) key).2.2 = atTime now := by
  cases hheld : held memory key with
  | none => rw [get_of_held_none (atTime now) hheld]
  | some tuple =>
    rw [get_of_held (atTime now) hheld]
    split
    · rfl
    · rfl

@[simp] theorem putTime_atTime (memory : MemoryTier Obj) (now : ℤ) :
    putTime (memory, atTime now) = now := by
  unfold putTime
  rw [eq_atTime (left_purgeExpired memory (atTime now))]
  rfl

/-- What a key holds after a `Put` at a time. -/
theorem held_put_cases {memory : MemoryTier Obj} {now e : ℤ} {key other : List Char}
    {item : Option (Held Obj)} {size : UInt64} {tuple : ItemTuple (Held Obj)}
    (h : held (memory.put (atTime now) key item e size).1 other = some tuple) :
    (key = other ∧ tuple = ⟨key, deadline now e, item, size⟩) ∨
      held memory other = some tuple := by
  by_cases haccepts : Accepts e
  · rcases held_of_held_put (s := (memory, atTime now)) haccepts h with ⟨hkey, htuple⟩ | ⟨-, hheld⟩
    · rw [htuple, stored, putTime_atTime]
      exact Or.inl ⟨hkey, rfl⟩
    · exact Or.inr hheld
  · rw [put_of_not_accepts (memory, atTime now) key item size haccepts] at h
    exact Or.inr ((held_purgeExpired memory (atTime now) other tuple).mp h).1

/-- A key holds what a `Put` has taken for it, or nothing. -/
theorem item_of_taken {memory : MemoryTier Obj} {now e : ℤ} {key : List Char}
    {item : Option (Held Obj)} {size : UInt64} {tuple : ItemTuple (Held Obj)}
    (htaken : (memory.put (atTime now) key item e size).2.1 = true)
    (h : held (memory.put (atTime now) key item e size).1 key = some tuple) :
    tuple.item = item := by
  by_cases haccepts : Accepts e
  · rcases held_of_held_put (s := (memory, atTime now)) haccepts h with ⟨-, rfl⟩ | ⟨hne, -⟩
    · rfl
    · exact absurd rfl hne
  · rw [put_of_not_accepts (memory, atTime now) key item size haccepts] at htaken
    cases htaken

/-- A memory tier returns only what has not expired. -/
theorem held_of_get {memory : MemoryTier Obj} {now : ℤ} {key : List Char} {value : Held Obj}
    (h : (memory.get (atTime now) key).2.1 = some value) :
    ∃ tuple, held memory key = some tuple ∧ tuple.item = some value ∧ now ≤ tuple.expiry := by
  cases hheld : held memory key with
  | none =>
    rw [get_of_held_none (atTime now) hheld] at h
    cases h
  | some tuple =>
    rw [get_of_held (atTime now) hheld] at h
    split at h
    · cases h
    · rename_i hlive
      exact ⟨tuple, rfl, h, not_lt.mp hlive⟩

/-! ## The disk tier -/

/-- The seconds a value on disk has left at a time. -/
def timeLeft (db : Database) (key : List Char) (now : ℤ) : Except Fault ℤ :=
  match db.find (createExpiryKey key) with
  | none => .ok timeMax
  | some text => (stol text).map (· - now)

theorem timeLeft_of_none {db : Database} {key : List Char}
    (h : db.find (createExpiryKey key) = none) (now : ℤ) : timeLeft db key now = .ok timeMax := by
  simp only [timeLeft, h]

theorem timeLeft_of_some {db : Database} {key text : List Char}
    (h : db.find (createExpiryKey key) = some text) (now : ℤ) :
    timeLeft db key now = (stol text).map (· - now) := by
  simp only [timeLeft, h]

/-- The disk after a `Put` at a time: the deadline, if there is one, and the text. -/
def written (now : ℤ) (key encoded : List Char) (e : ℤ) (db : Database) : Database :=
  (if e < timeMax then db.insert (createExpiryKey key) (decimal (e + now)) else db).insert key
    encoded

/-- The disk after an expired item has been purged. -/
def purgedDisk (key : List Char) (db : Database) : Database :=
  (db.erase key).erase (createExpiryKey key)

/-- The disk after a removal by prefix. -/
def withoutPrefix (keyPrefix : List Char) (db : Database) : Database :=
  db.eraseAll (DiskCache.scan (Assoc.keys db.entries) keyPrefix)

theorem isExpiryKey_createExpiryKey (key : List Char) : IsExpiryKey (createExpiryKey key) :=
  List.suffix_append _ _

theorem ne_createExpiryKey {key : List Char} (h : ¬ IsExpiryKey key) (other : List Char) :
    key ≠ createExpiryKey other := by
  rintro rfl
  exact h (isExpiryKey_createExpiryKey other)

theorem createExpiryKey_injective {key other : List Char}
    (h : createExpiryKey key = createExpiryKey other) : key = other :=
  List.append_cancel_right h

theorem createExpiryKey_ne {key other : List Char} (h : key ≠ other) :
    createExpiryKey key ≠ createExpiryKey other :=
  fun heq => h (createExpiryKey_injective heq)

theorem createExpiryKey_ne_self (key : List Char) : createExpiryKey key ≠ key := by
  intro h
  have hlength := congrArg List.length h
  simp [createExpiryKey] at hlength

/-- A written key reads back; its deadline entry is the new one, or the one that was there. -/
theorem find_written_self (now : ℤ) (key encoded : List Char) (e : ℤ) (db : Database) :
    (written now key encoded e db).find key = some encoded :=
  SortedMap.find_insert_self _ _ _

theorem find_written_expiry (now : ℤ) (key encoded : List Char) (e : ℤ) (db : Database) :
    (written now key encoded e db).find (createExpiryKey key) =
      if e < timeMax then some (decimal (e + now)) else db.find (createExpiryKey key) := by
  unfold written
  rw [SortedMap.find_insert, if_neg (createExpiryKey_ne_self key)]
  split
  · rw [SortedMap.find_insert_self]
  · rfl

/-- **Frame.** A write leaves every entry but its two alone. -/
theorem find_written_other {now e : ℤ} {key other encoded : List Char} (db : Database)
    (hkey : other ≠ key) (hexpiry : other ≠ createExpiryKey key) :
    (written now key encoded e db).find other = db.find other := by
  unfold written
  rw [SortedMap.find_insert, if_neg hkey]
  split
  · rw [SortedMap.find_insert, if_neg hexpiry]
  · rfl

/-! ## The functions on the tiers -/

/-- The memory tier takes an item for a new one; without a memory tier nothing is refused. -/
def Taken (now : ℤ) (memory : Option (MemoryTier Obj)) (key : List Char)
    (value : Option (Held Obj)) (e : ℤ) (size : ℕ) : Prop :=
  ∀ m ∈ memory, (m.put (atTime now) key value e (UInt64.ofNat size)).2.1 = true

/-- The memory tier after a `Put` at a time. -/
def putIn (now : ℤ) (memory : Option (MemoryTier Obj)) (key : List Char)
    (value : Option (Held Obj)) (e : ℤ) (size : ℕ) : Option (MemoryTier Obj) :=
  memory.map fun m => (m.put (atTime now) key value e (UInt64.ofNat size)).1

/-- The memory tier after a lookup at a time. -/
def lookedIn (now : ℤ) (memory : Option (MemoryTier Obj)) (key : List Char) :
    Option (MemoryTier Obj) :=
  memory.map fun m => (m.get (atTime now) key).1

theorem putMemory_tiersOf (memory : Option (MemoryTier Obj)) (disk : Option Database) (now : ℤ)
    (key : List Char) (value : Option (Held Obj)) (e : ℤ) (size : ℕ) :
    ∃ ok, (tiersOf memory disk).putMemory (atTime now) key value e size =
        (tiersOf (putIn now memory key value e size) disk, ok, atTime now) ∧
      (ok = true ↔ Taken now memory key value e size) := by
  cases memory with
  | none => exact ⟨true, rfl, iff_of_true rfl fun m hm => nomatch hm⟩
  | some m =>
    refine ⟨(m.put (atTime now) key value e (UInt64.ofNat size)).2.1, ?_, ?_⟩
    · have hclock := clock_put m now key value e (UInt64.ofNat size)
      simp only [putMemory, tiersOf, putIn, Option.map_some, hclock]
    · simp [Taken]

theorem putDisk_tiersOf (memory : Option (MemoryTier Obj)) (disk : Option Database) (now : ℤ)
    (key encoded : List Char) (e : ℤ) :
    (tiersOf memory disk).putDisk (atTime now) key encoded e =
      (tiersOf memory (disk.map (written now key encoded e)), true, atTime now) := by
  cases disk with
  | none => rfl
  | some db =>
    by_cases he : e < timeMax
    · have hrest : (atTime now).rest = atTime now := rfl
      simp [putDisk, tiersOf, he, storeExpiry, DiskCache.put, DiskCache.write, written,
        Clock.now, hrest]
    · simp [putDisk, tiersOf, he, DiskCache.put, DiskCache.write, written]

/-- `Put` at a time: the disk is written iff the memory tier has taken the item. -/
theorem putEncoded_taken {memory : Option (MemoryTier Obj)} (disk : Option Database) {now : ℤ}
    {key encoded : List Char} {value : Option (Held Obj)} {e : ℤ}
    (h : Taken now memory key value e encoded.length) :
    (tiersOf memory disk).putEncoded (atTime now) key value encoded e =
      (tiersOf (putIn now memory key value e encoded.length)
        (disk.map (written now key encoded e)), true, atTime now) := by
  obtain ⟨ok, hmemory, hok⟩ := putMemory_tiersOf memory disk now key value e encoded.length
  rw [hok.mpr h] at hmemory
  have hopen : (tiersOf memory disk).isOpen = true := rfl
  simp only [putEncoded, hopen, if_true, hmemory, putDisk_tiersOf]

theorem putEncoded_refused {memory : Option (MemoryTier Obj)} (disk : Option Database) {now : ℤ}
    {key encoded : List Char} {value : Option (Held Obj)} {e : ℤ}
    (h : ¬ Taken now memory key value e encoded.length) :
    (tiersOf memory disk).putEncoded (atTime now) key value encoded e =
      (tiersOf (putIn now memory key value e encoded.length) disk, false, atTime now) := by
  obtain ⟨ok, hmemory, hok⟩ := putMemory_tiersOf memory disk now key value e encoded.length
  have hfalse : ok = false := Bool.eq_false_iff.mpr fun htrue => h (hok.mp htrue)
  have hopen : (tiersOf memory disk).isOpen = true := rfl
  rw [hfalse] at hmemory
  simp [putEncoded, hopen, hmemory]

/-- How a `Get` at a time can end: found in the memory tier; neither tier has it; a deadline
that cannot be read; expired on disk, and purged there; or found on disk, and put in the memory
tier with the time it has left. -/
inductive Got (now : ℤ) (memory : Option (MemoryTier Obj)) (disk : Option Database)
    (key : List Char) (decoder : List Char → Option (Held Obj)) :
    Option (MemoryTier Obj) → Option Database → Except Fault (Option (Held Obj)) → Prop where
  | found {m : MemoryTier Obj} {tuple : ItemTuple (Held Obj)} {value : Held Obj}
      (hmemory : memory = some m) (hheld : held m key = some tuple)
      (hitem : tuple.item = some value) (hlive : now ≤ tuple.expiry) :
      Got now memory disk key decoder (lookedIn now memory key) disk (.ok (some value))
  | missed (hdisk : ∀ db ∈ disk, db.find key = none) :
      Got now memory disk key decoder (lookedIn now memory key) disk (.ok none)
  | faulted {db : Database} {fault : Fault} (hdisk : disk = some db)
      (hleft : timeLeft db key now = .error fault) :
      Got now memory disk key decoder (lookedIn now memory key) disk (.error fault)
  | purged {db : Database} {left : ℤ} (hdisk : disk = some db)
      (hleft : timeLeft db key now = .ok left) (hexpired : left ≤ 0) :
      Got now memory disk key decoder (lookedIn now memory key) (some (purgedDisk key db))
        (.ok none)
  | promoted {db : Database} {left : ℤ} {encoded : List Char} (hdisk : disk = some db)
      (hleft : timeLeft db key now = .ok left) (hlive : 0 < left)
      (hfind : db.find key = some encoded) :
      Got now memory disk key decoder
        (putIn now (lookedIn now memory key) key (decoder encoded) left encoded.length) disk
        (.ok (decoder encoded))

theorem getRemainingExpiryTime_eq (key : List Char) (db : Database) (writes : ℕ → Bool)
    (now : ℤ) :
    getRemainingExpiryTime key ⟨some db, writes⟩ (atTime now) =
      (timeLeft db key now, atTime now) := by
  unfold getRemainingExpiryTime timeLeft DiskCache.get
  simp only [Option.bind_some]
  cases db.find (createExpiryKey key) with
  | none => rfl
  | some text =>
    dsimp only
    cases stol text with
    | error fault => rfl
    | ok expiry => rfl

theorem getMemory_tiersOf (memory : Option (MemoryTier Obj)) (disk : Option Database) (now : ℤ)
    (key : List Char) :
    (tiersOf memory disk).getMemory (atTime now) key =
      (tiersOf (lookedIn now memory key) disk,
        memory.bind fun m => (m.get (atTime now) key).2.1, atTime now) := by
  cases memory with
  | none => rfl
  | some m =>
    have hclock := clock_get m now key
    simp only [getMemory, tiersOf, lookedIn, Option.map_some, Option.bind_some, hclock]

/-- **`Get` ends in one of the five ways.** -/
theorem got_get (memory : Option (MemoryTier Obj)) (disk : Option Database) (now : ℤ)
    (key : List Char) (decoder : List Char → Option (Held Obj)) :
    ∃ memory' disk' result, (tiersOf memory disk).get (atTime now) key decoder =
        (tiersOf memory' disk', result, atTime now) ∧
      Got now memory disk key decoder memory' disk' result := by
  have hopen : (tiersOf memory disk).isOpen = true := rfl
  unfold DefaultCache.get
  rw [hopen, if_pos rfl, getMemory_tiersOf]
  cases hvalue : memory.bind fun m => (m.get (atTime now) key).2.1 with
  | some value =>
    obtain ⟨m, hm, hget⟩ := Option.bind_eq_some_iff.mp hvalue
    obtain ⟨tuple, hheld, hitem, hlive⟩ := held_of_get hget
    exact ⟨_, _, _, rfl, .found hm hheld hitem hlive⟩
  | none =>
    cases disk with
    | none => exact ⟨_, _, _, rfl, .missed fun db hdb => nomatch hdb⟩
    | some db =>
      have hremaining := getRemainingExpiryTime_eq key db (fun _ => true) now
      simp only [getDisk, tiersOf, Option.map_some, hremaining]
      cases hleft : timeLeft db key now with
      | error fault => exact ⟨_, _, _, rfl, .faulted rfl hleft⟩
      | ok left =>
        by_cases hexpired : left ≤ 0
        · simp only [hexpired, if_true]
          exact ⟨_, _, _, rfl, .purged rfl hleft hexpired⟩
        · simp only [hexpired, if_false, DiskCache.get, Option.bind_some]
          cases hfind : db.find key with
          | none =>
            refine ⟨_, _, _, rfl, .missed fun db' hdb' => ?_⟩
            rw [← Option.some.inj hdb']
            exact hfind
          | some encoded =>
            obtain ⟨ok, hput, -⟩ := putMemory_tiersOf (lookedIn now memory key) (some db) now key
              (decoder encoded) left encoded.length
            simp only [tiersOf, Option.map_some] at hput
            refine ⟨_, some db, _, ?_, .promoted rfl hleft (not_le.mp hexpired) hfind⟩
            simp only [hput, Option.map_some]

/-! ## What one call can do -/

theorem runAt_append (c : DefaultCache Obj) (calls more : List (ℤ × Call Obj)) :
    c.runAt (calls ++ more) = (c.runAt calls).runAt more :=
  List.foldl_append

/-- What a call at a time can do to the tiers. -/
inductive Moved (now : ℤ) (memory : Option (MemoryTier Obj)) (disk : Option Database) :
    Call Obj → Option (MemoryTier Obj) → Option Database → Prop where
  | written {call : Call Obj} {key encoded : List Char} {value : Option (Held Obj)} {e : ℤ}
      (h : puts call = some (key, value, encoded, e))
      (htaken : Taken now memory key value e encoded.length) :
      Moved now memory disk call (putIn now memory key value e encoded.length)
        (disk.map (written now key encoded e))
  | refused {call : Call Obj} {key encoded : List Char} {value : Option (Held Obj)} {e : ℤ}
      (h : puts call = some (key, value, encoded, e)) :
      Moved now memory disk call (putIn now memory key value e encoded.length) disk
  | read {call : Call Obj} {key : List Char} {decoder : List Char → Option (Held Obj)}
      {memory' : Option (MemoryTier Obj)} {disk' : Option Database}
      {result : Except Fault (Option (Held Obj))} (h : reads call = some (key, decoder))
      (hgot : Got now memory disk key decoder memory' disk' result) :
      Moved now memory disk call memory' disk'
  | removed (key : List Char) :
      Moved now memory disk (.remove key) (memory.map (InMemoryCache.remove · key))
        (disk.map (SortedMap.erase · key))
  | prefixRemoved (keyPrefix : List Char) :
      Moved now memory disk (.removeKeysWithPrefix keyPrefix)
        (memory.map (InMemoryCache.removeKeysWithPrefix · keyPrefix))
        (disk.map (withoutPrefix keyPrefix))

/-- **Step.** Every call moves the tiers. -/
theorem moved_stepAt (memory : Option (MemoryTier Obj)) (disk : Option Database) (now : ℤ)
    (call : Call Obj) :
    ∃ memory' disk', stepAt (tiersOf memory disk) (now, call) = tiersOf memory' disk' ∧
      Moved now memory disk call memory' disk' := by
  have hputs : ∀ {key encoded : List Char} {value : Option (Held Obj)} {e : ℤ},
      puts call = some (key, value, encoded, e) →
      ∃ memory' disk', stepAt (tiersOf memory disk) (now, call) = tiersOf memory' disk' ∧
        Moved now memory disk call memory' disk' := by
    intro key encoded value e h
    unfold stepAt
    rw [step_of_puts h]
    by_cases htaken : Taken now memory key value e encoded.length
    · exact ⟨_, _, congrArg Prod.fst (putEncoded_taken disk htaken), .written h htaken⟩
    · exact ⟨_, _, congrArg Prod.fst (putEncoded_refused disk htaken), .refused h⟩
  have hreads : ∀ {key : List Char} {decoder : List Char → Option (Held Obj)},
      reads call = some (key, decoder) →
      ∃ memory' disk', stepAt (tiersOf memory disk) (now, call) = tiersOf memory' disk' ∧
        Moved now memory disk call memory' disk' := by
    intro key decoder h
    obtain ⟨memory', disk', result, hget, hgot⟩ := got_get memory disk now key decoder
    unfold stepAt
    rw [step_of_reads h]
    exact ⟨memory', disk', congrArg Prod.fst hget, .read h hgot⟩
  cases call with
  | put key value encoded e => exact hputs rfl
  | putData key value e => exact hputs rfl
  | get key decoder => exact hreads rfl
  | getData key => exact hreads rfl
  | remove key =>
    refine ⟨_, _, ?_, .removed key⟩
    cases disk with
    | none => rfl
    | some db => rfl
  | removeKeysWithPrefix keyPrefix =>
    refine ⟨_, _, ?_, .prefixRemoved keyPrefix⟩
    cases disk with
    | none => rfl
    | some db => rfl

end OlpEdgeSdk.Analysis.DefaultCache

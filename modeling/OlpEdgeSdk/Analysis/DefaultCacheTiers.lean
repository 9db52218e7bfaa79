import Mathlib.Data.List.TakeWhile
import OlpEdgeSdk.Analysis.InMemoryCacheRetention
import OlpEdgeSdk.Base.PrefixBlock
import OlpEdgeSdk.Model.DefaultCache

/-!
# Two tiers: when a read returns the last write

With both tiers open and a disk that loses no write, a `Put` that was not followed by
another call on its key should be what a `Get` returns. `Put` ends when the memory tier
reports failure, and the memory tier reports failure for a key it already holds; the new value
is then in memory only, and the disk tier answers with an older one as soon as it is evicted.

`Moves` lists what one call without expiry can do to the two tiers, `Serves` is the
invariant, and `get_returns_last_put` the result: a read returns the last write of every run
in which that write found its key absent from the memory tier, or its own text on disk.
-/

set_option autoImplicit false

namespace OlpEdgeSdk.Analysis.DefaultCache

open OlpEdgeSdk.Model OlpEdgeSdk.Base OlpEdgeSdk.Interface
open OlpEdgeSdk.Model.DefaultCache OlpEdgeSdk.Analysis.InMemoryCache

variable {Obj : Type}

/-- The content of the disk tier. -/
abbrev Database : Type := SortedMap (List Char) (List Char)

/-- An open cache with both tiers and a disk whose writes all succeed. -/
def tiers (memory : MemoryTier Obj) (db : Database) : DefaultCache Obj :=
  ⟨true, some memory, some ⟨some db, fun _ => true⟩⟩

/-- A key of the form under which the disk tier stores deadlines. -/
def IsExpiryKey (key : List Char) : Prop := "::expiry".toList <:+ key

instance (key : List Char) : Decidable (IsExpiryKey key) :=
  inferInstanceAs (Decidable (_ <:+ _))

/-- A database without deadlines. -/
def Clean (db : Database) : Prop := ∀ key, IsExpiryKey key → db.find key = none

/-- The key, value, text and expiry of a call that writes. -/
def puts : Call Obj → Option (List Char × Option (Held Obj) × List Char × ℤ)
  | .put key value encoded expiry => some (key, value, encoded, expiry)
  | .putData key value expiry => some (key, some (.data value), value, expiry)
  | _ => none

/-- The key and decoder of a call that reads. -/
def reads : Call Obj → Option (List Char × (List Char → Option (Held Obj)))
  | .get key decoder => some (key, decoder)
  | .getData key => some (key, asData)
  | _ => none

/-- A call on a key that is not an expiry key, without expiry. -/
def Admissible : Call Obj → Prop
  | .put key _ _ expiry => ¬ IsExpiryKey key ∧ expiry = timeMax
  | .putData key _ expiry => ¬ IsExpiryKey key ∧ expiry = timeMax
  | .get key _ => ¬ IsExpiryKey key
  | .getData key => ¬ IsExpiryKey key
  | .remove key => ¬ IsExpiryKey key
  | .removeKeysWithPrefix _ => True

/-- A call that may change what a key stands for. -/
def Touches (key : List Char) : Call Obj → Prop
  | .put other _ _ _ => other = key
  | .putData other _ _ => other = key
  | .get _ _ => False
  | .getData _ => False
  | .remove other => other = key
  | .removeKeysWithPrefix keyPrefix => keyPrefix <+: key

/-! ## The functions on the two tiers -/

/-- `Put` without expiry: the disk tier is written only if the memory tier took the item for
a new one. -/
theorem putEncoded_tiers (memory : MemoryTier Obj) (db : Database) (clock : Clock)
    (key : List Char) (value : Option (Held Obj)) (encoded : List Char) :
    let r := memory.put clock key value timeMax (UInt64.ofNat encoded.length)
    (tiers memory db).putEncoded clock key value encoded timeMax =
      (tiers r.1 (if r.2.1 then db.insert key encoded else db), r.2.1, r.2.2) := by
  intro r
  have hr : memory.put clock key value timeMax (UInt64.ofNat encoded.length) = r := rfl
  simp only [putEncoded, tiers, putMemory, hr]
  cases hok : r.2.1 with
  | true => simp [putDisk, DiskCache.put, DiskCache.write]
  | false => simp

/-- `Get` of a key without a deadline on disk. -/
theorem get_tiers (memory : MemoryTier Obj) {db : Database} (clock : Clock) {key : List Char}
    (decoder : List Char → Option (Held Obj)) (h : db.find (createExpiryKey key) = none) :
    (tiers memory db).get clock key decoder =
      match memory.get clock key with
      | (memory, some value, clock) => (tiers memory db, .ok (some value), clock)
      | (memory, none, clock) =>
        match db.find key with
        | none => (tiers memory db, .ok none, clock)
        | some encoded =>
          let r := memory.put clock key (decoder encoded) timeMax (UInt64.ofNat encoded.length)
          (tiers r.1 db, .ok (decoder encoded), r.2.2) := by
  have hpos : ¬ timeMax ≤ 0 := by decide
  rcases hget : memory.get clock key with ⟨memory', value, clock'⟩
  cases value with
  | some value => simp [DefaultCache.get, tiers, getMemory, hget]
  | none =>
    cases hfind : db.find key with
    | none =>
      simp [DefaultCache.get, tiers, getMemory, getDisk, getRemainingExpiryTime,
        DiskCache.get, hget, h, hpos, hfind]
    | some encoded =>
      simp [DefaultCache.get, tiers, getMemory, getDisk, getRemainingExpiryTime,
        DiskCache.get, hget, h, hpos, hfind, putMemory]

theorem remove_tiers (memory : MemoryTier Obj) (db : Database) (key : List Char) :
    ((tiers memory db).remove key).1 = tiers (memory.remove key) (db.erase key) := by
  simp [DefaultCache.remove, tiers, DiskCache.remove, DiskCache.write]

theorem removeKeysWithPrefix_tiers (memory : MemoryTier Obj) (db : Database)
    (keyPrefix : List Char) :
    ((tiers memory db).removeKeysWithPrefix keyPrefix).1 =
      tiers (memory.removeKeysWithPrefix keyPrefix)
        (db.eraseAll (DiskCache.scan (Assoc.keys db.entries) keyPrefix)) := by
  simp [DefaultCache.removeKeysWithPrefix, tiers, DiskCache.removeKeysWithPrefix,
    DiskCache.write]

theorem step_of_puts {call : Call Obj} {key encoded : List Char} {value : Option (Held Obj)}
    {expiry : ℤ} (h : puts call = some (key, value, encoded, expiry))
    (s : DefaultCache Obj × Clock) :
    step s call = ((s.1.putEncoded s.2 key value encoded expiry).1,
      (s.1.putEncoded s.2 key value encoded expiry).2.2) := by
  cases call with
  | put | putData =>
    simp only [puts, Option.some.injEq, Prod.mk.injEq] at h
    obtain ⟨rfl, rfl, rfl, rfl⟩ := h
    rfl
  | get | getData | remove | removeKeysWithPrefix => simp [puts] at h

theorem step_of_reads {call : Call Obj} {key : List Char}
    {decoder : List Char → Option (Held Obj)} (h : reads call = some (key, decoder))
    (s : DefaultCache Obj × Clock) :
    step s call = ((s.1.get s.2 key decoder).1, (s.1.get s.2 key decoder).2.2) := by
  cases call with
  | get | getData =>
    simp only [reads, Option.some.injEq, Prod.mk.injEq] at h
    obtain ⟨rfl, rfl⟩ := h
    rfl
  | put | putData | remove | removeKeysWithPrefix => simp [reads] at h

/-! ## What one call can do -/

/-- What a call without expiry can do to the two tiers. -/
inductive Moves (memory : MemoryTier Obj) (db : Database) (clock : Clock) :
    Call Obj → MemoryTier Obj → Database → Prop where
  | stored {call : Call Obj} {key encoded : List Char} {value : Option (Held Obj)}
      (h : puts call = some (key, value, encoded, timeMax)) :
      Moves memory db clock call
        (memory.put clock key value timeMax (UInt64.ofNat encoded.length)).1
        (if (memory.put clock key value timeMax (UInt64.ofNat encoded.length)).2.1 then
          db.insert key encoded else db)
  | looked {call : Call Obj} {key : List Char} {decoder : List Char → Option (Held Obj)}
      (h : reads call = some (key, decoder)) :
      Moves memory db clock call (memory.get clock key).1 db
  | promoted {call : Call Obj} {key encoded : List Char}
      {decoder : List Char → Option (Held Obj)} (h : reads call = some (key, decoder))
      (hfind : db.find key = some encoded) :
      Moves memory db clock call
        ((memory.get clock key).1.put (memory.get clock key).2.2 key (decoder encoded) timeMax
          (UInt64.ofNat encoded.length)).1 db
  | removed (key : List Char) :
      Moves memory db clock (.remove key) (memory.remove key) (db.erase key)
  | prefixRemoved (keyPrefix : List Char) :
      Moves memory db clock (.removeKeysWithPrefix keyPrefix)
        (memory.removeKeysWithPrefix keyPrefix)
        (db.eraseAll (DiskCache.scan (Assoc.keys db.entries) keyPrefix))

/-- A key that is not an expiry key has no deadline in a clean database. -/
theorem find_createExpiryKey {db : Database} (h : Clean db) (key : List Char) :
    db.find (createExpiryKey key) = none :=
  h _ (List.suffix_append _ _)

/-- **Step.** Every admissible call moves the tiers. -/
theorem moves_step (memory : MemoryTier Obj) {db : Database} (clock : Clock) {call : Call Obj}
    (hclean : Clean db) (hcall : Admissible call) :
    ∃ memory' db', (step (tiers memory db, clock) call).1 = tiers memory' db' ∧
      Moves memory db clock call memory' db' := by
  have hreads : ∀ {key : List Char} {decoder : List Char → Option (Held Obj)},
      reads call = some (key, decoder) →
      ∃ memory' db', (step (tiers memory db, clock) call).1 = tiers memory' db' ∧
        Moves memory db clock call memory' db' := by
    intro key decoder h
    have hget := get_tiers memory clock decoder (find_createExpiryKey hclean key)
    rw [step_of_reads h]
    rcases hmem : memory.get clock key with ⟨memory', value, clock'⟩
    have hlooked : Moves memory db clock call (memory.get clock key).1 db := .looked h
    rw [hmem] at hget hlooked
    cases value with
    | some value => exact ⟨memory', db, by simp [hget], hlooked⟩
    | none =>
      cases hfind : db.find key with
      | none => exact ⟨memory', db, by simp [hget, hfind], hlooked⟩
      | some encoded =>
        have hpromoted : Moves memory db clock call _ db := .promoted h hfind
        rw [hmem] at hpromoted
        exact ⟨_, db, by simp [hget, hfind], hpromoted⟩
  have hputs : ∀ {key encoded : List Char} {value : Option (Held Obj)},
      puts call = some (key, value, encoded, timeMax) →
      ∃ memory' db', (step (tiers memory db, clock) call).1 = tiers memory' db' ∧
        Moves memory db clock call memory' db' := by
    intro key encoded value h
    refine ⟨_, _, ?_, Moves.stored h⟩
    rw [step_of_puts h]
    exact congrArg Prod.fst (putEncoded_tiers memory db clock key value encoded)
  cases call with
  | put key value encoded expiry =>
    obtain ⟨-, rfl⟩ := hcall
    exact hputs rfl
  | putData key value expiry =>
    obtain ⟨-, rfl⟩ := hcall
    exact hputs rfl
  | get key decoder => exact hreads rfl
  | getData key => exact hreads rfl
  | remove key => exact ⟨_, _, remove_tiers memory db key, Moves.removed key⟩
  | removeKeysWithPrefix keyPrefix =>
    exact ⟨_, _, removeKeysWithPrefix_tiers memory db keyPrefix, Moves.prefixRemoved keyPrefix⟩

/-! ## Invariants -/

theorem not_isExpiryKey_of_puts {call : Call Obj} {key encoded : List Char}
    {value : Option (Held Obj)} {expiry : ℤ} (hcall : Admissible call)
    (h : puts call = some (key, value, encoded, expiry)) : ¬ IsExpiryKey key := by
  cases call with
  | put | putData =>
    simp only [puts, Option.some.injEq, Prod.mk.injEq] at h
    obtain ⟨rfl, -⟩ := h
    exact hcall.1
  | get | getData | remove | removeKeysWithPrefix => simp [puts] at h

theorem touches_of_puts {call : Call Obj} {key encoded : List Char} {value : Option (Held Obj)}
    {expiry : ℤ} (h : puts call = some (key, value, encoded, expiry)) : Touches key call := by
  cases call with
  | put | putData =>
    simp only [puts, Option.some.injEq, Prod.mk.injEq] at h
    exact h.1
  | get | getData | remove | removeKeysWithPrefix => simp [puts] at h

/-- **The scan finds the keys of a prefix.** They stand together in an ordered map, so erasing
the keys it passes is erasing all keys that start with the prefix.
SOURCE: DiskCache.cpp:287-297 -/
theorem eraseAll_scan (db : Database) (keyPrefix : List Char) :
    db.eraseAll (DiskCache.scan (Assoc.keys db.entries) keyPrefix) =
      db.filterKeys fun key => ¬ keyPrefix <+: key := by
  have hscan : DiskCache.scan (Assoc.keys db.entries) keyPrefix =
      (Assoc.keys db.entries).filter fun key => keyPrefix.isPrefixOf key := by
    unfold DiskCache.scan
    split
    · rename_i hnil
      simp [hnil]
    · exact block_eq_filter (fun _ => decide_eq_true_iff) (fun _ => List.isPrefixOf_iff_prefix)
        db.sorted
  rw [SortedMap.eraseAll_eq_filterKeys, hscan]
  apply SortedMap.ext
  apply List.filter_congr
  intro e he
  have hkey : e.1 ∈ Assoc.keys db.entries := List.mem_map_of_mem he
  simp [hkey]

theorem find_eraseAll_scan (db : Database) (keyPrefix key : List Char) :
    (db.eraseAll (DiskCache.scan (Assoc.keys db.entries) keyPrefix)).find key = db.find key ∨
      (keyPrefix <+: key ∧
        (db.eraseAll (DiskCache.scan (Assoc.keys db.entries) keyPrefix)).find key = none) := by
  rw [eraseAll_scan, SortedMap.find_filterKeys]
  by_cases hstart : keyPrefix <+: key
  · exact Or.inr ⟨hstart, by simp [hstart]⟩
  · exact Or.inl (by simp [hstart])

theorem clean_moves {memory memory' : MemoryTier Obj} {db db' : Database} {clock : Clock}
    {call : Call Obj} (hcall : Admissible call) (h : Moves memory db clock call memory' db')
    (hclean : Clean db) : Clean db' := by
  intro key hkey
  cases h with
  | stored hputs =>
    have hne := not_isExpiryKey_of_puts hcall hputs
    split
    · rw [SortedMap.find_insert]
      split
      · rename_i heq
        exact absurd (heq ▸ hkey) hne
      · exact hclean key hkey
    · exact hclean key hkey
  | looked => exact hclean key hkey
  | promoted => exact hclean key hkey
  | removed other =>
    rw [SortedMap.find_erase]
    split
    · rfl
    · exact hclean key hkey
  | prefixRemoved keyPrefix =>
    rcases find_eraseAll_scan db keyPrefix key with heq | ⟨-, hnone⟩
    · rw [heq]
      exact hclean key hkey
    · exact hnone

theorem maxSize_moves {memory memory' : MemoryTier Obj} {db db' : Database} {clock : Clock}
    {call : Call Obj} (h : Moves memory db clock call memory' db') :
    memory'.itemTuples.maxSize = memory.itemTuples.maxSize := by
  cases h with
  | stored => exact maxSize_put (memory, clock) _ _ _ _
  | looked => exact maxSize_get _ _ _
  | promoted => exact (maxSize_put ((memory.get clock _).1, _) _ _ _ _).trans (maxSize_get _ _ _)
  | removed => exact maxSize_remove _ _
  | prefixRemoved => exact maxSize_removeKeysWithPrefix _ _

/-- The disk tier holds the text of the last write of a key, and what the memory tier holds
for it, if anything, is one of the values that write may be read as. -/
def Serves (key encoded : List Char) (values : Option (Held Obj) → Prop)
    (memory : MemoryTier Obj) (db : Database) : Prop :=
  db.find key = some encoded ∧ ∀ tuple, held memory key = some tuple → values tuple.item

theorem accepts_timeMax : Accepts timeMax := by decide

/-- A call that does not touch the key keeps the last write in place. -/
theorem serves_moves {memory memory' : MemoryTier Obj} {db db' : Database} {clock : Clock}
    {call : Call Obj} {key encoded : List Char} {values : Option (Held Obj) → Prop}
    (h : Moves memory db clock call memory' db') (huntouched : ¬ Touches key call)
    (hreads : ∀ decoder, reads call = some (key, decoder) → values (decoder encoded))
    (hserves : Serves key encoded values memory db) :
    Serves key encoded values memory' db' := by
  obtain ⟨hdisk, hmemory⟩ := hserves
  cases h with
  | stored hputs =>
    rename_i other otherEncoded value
    have hne : other ≠ key := fun heq => huntouched (heq ▸ touches_of_puts hputs)
    refine ⟨?_, fun tuple hheld => ?_⟩
    · split
      · rw [SortedMap.find_insert, if_neg hne.symm]
        exact hdisk
      · exact hdisk
    · rcases held_of_held_put (s := (memory, clock)) accepts_timeMax hheld with
        ⟨heq, -⟩ | ⟨-, hheld⟩
      · exact absurd heq hne
      · exact hmemory tuple hheld
  | looked => exact ⟨hdisk, fun tuple hheld => hmemory tuple (held_of_held_get hheld)⟩
  | promoted hread hfind =>
    refine ⟨hdisk, fun tuple hheld => ?_⟩
    rcases held_of_held_put (s := ((memory.get clock _).1, _)) accepts_timeMax hheld with
      ⟨rfl, rfl⟩ | ⟨-, hheld⟩
    · rw [Option.some.inj (hfind.symm.trans hdisk)]
      exact hreads _ hread
    · exact hmemory tuple (held_of_held_get hheld)
  | removed other =>
    have hne : key ≠ other := fun heq => huntouched heq.symm
    refine ⟨?_, fun tuple hheld => hmemory tuple ?_⟩
    · rw [SortedMap.find_erase, if_neg hne]
      exact hdisk
    · rwa [held_remove, if_neg hne] at hheld
  | prefixRemoved keyPrefix =>
    refine ⟨?_, fun tuple hheld => hmemory tuple ?_⟩
    · rcases find_eraseAll_scan db keyPrefix key with heq | ⟨hpre, -⟩
      · rw [heq]
        exact hdisk
      · exact absurd hpre huntouched
    · have hpre : ¬ key.take keyPrefix.length = keyPrefix :=
        fun heq => huntouched (List.prefix_iff_eq_take.mpr heq.symm)
      rwa [held_removeKeysWithPrefix, if_neg hpre] at hheld

/-! ## Runs -/

/-- A state with both tiers, no deadlines on disk and a given memory size. -/
def Tiered (maxSize : UInt64) (c : DefaultCache Obj) : Prop :=
  ∃ memory db, c = tiers memory db ∧ Clean db ∧ memory.itemTuples.maxSize = maxSize

/-- The same, with the last write of a key in place. -/
def Serving (maxSize : UInt64) (key encoded : List Char) (values : Option (Held Obj) → Prop)
    (c : DefaultCache Obj) : Prop :=
  ∃ memory db, c = tiers memory db ∧ Clean db ∧ memory.itemTuples.maxSize = maxSize ∧
    Serves key encoded values memory db

/-- **Run.** Admissible calls keep the two tiers. -/
theorem tiered_run {maxSize : UInt64} {s : DefaultCache Obj × Clock} {calls : List (Call Obj)}
    (hcalls : ∀ call ∈ calls, Admissible call) (h : Tiered maxSize s.1) :
    Tiered maxSize (run s calls).1 := by
  induction calls generalizing s with
  | nil => exact h
  | cons call calls ih =>
    obtain ⟨memory, db, hs, hclean, hmax⟩ := h
    have hcall := hcalls call List.mem_cons_self
    obtain ⟨memory', db', hstep, hmoves⟩ := moves_step memory s.2 hclean hcall
    rw [← hs] at hstep
    exact ih (fun call' hmem => hcalls call' (List.mem_cons_of_mem _ hmem))
      ⟨memory', db', hstep, clean_moves hcall hmoves hclean, (maxSize_moves hmoves).trans hmax⟩

/-- The decoders with which the calls read a key. -/
def decodersOf (key : List Char) (calls : List (Call Obj)) :
    List (List Char → Option (Held Obj)) :=
  calls.filterMap fun call =>
    (reads call).bind fun r => if r.1 = key then some r.2 else none

theorem mem_decodersOf {key : List Char} {calls : List (Call Obj)} {call : Call Obj}
    {decoder : List Char → Option (Held Obj)} (hmem : call ∈ calls)
    (h : reads call = some (key, decoder)) : decoder ∈ decodersOf key calls :=
  List.mem_filterMap.mpr ⟨call, hmem, by simp [h]⟩

/-- **Run.** Calls that do not touch the key keep its last write in place. -/
theorem serving_run {maxSize : UInt64} {key encoded : List Char}
    {values : Option (Held Obj) → Prop} {s : DefaultCache Obj × Clock}
    {calls : List (Call Obj)} (hcalls : ∀ call ∈ calls, Admissible call)
    (huntouched : ∀ call ∈ calls, ¬ Touches key call)
    (hreads : ∀ decoder ∈ decodersOf key calls, values (decoder encoded))
    (h : Serving maxSize key encoded values s.1) :
    Serving maxSize key encoded values (run s calls).1 := by
  induction calls generalizing s with
  | nil => exact h
  | cons call calls ih =>
    obtain ⟨memory, db, hs, hclean, hmax, hserves⟩ := h
    have hcall := hcalls call List.mem_cons_self
    obtain ⟨memory', db', hstep, hmoves⟩ := moves_step memory s.2 hclean hcall
    rw [← hs] at hstep
    have hserves' := serves_moves hmoves (huntouched call List.mem_cons_self)
      (fun decoder hread => hreads decoder (mem_decodersOf List.mem_cons_self hread)) hserves
    refine ih (fun call' hmem => hcalls call' (List.mem_cons_of_mem _ hmem))
      (fun call' hmem => huntouched call' (List.mem_cons_of_mem _ hmem))
      (fun decoder hmem => hreads decoder ?_)
      ⟨memory', db', hstep, clean_moves hcall hmoves hclean,
        (maxSize_moves hmoves).trans hmax, hserves'⟩
    obtain ⟨call', hmem', hread⟩ := List.mem_filterMap.mp hmem
    exact List.mem_filterMap.mpr ⟨call', List.mem_cons_of_mem _ hmem', hread⟩

/-! ## The last write -/

/-- What the memory tier holds for a key. -/
def memoryHeld (c : DefaultCache Obj) (key : List Char) : Option (ItemTuple (Held Obj)) :=
  c.memoryCache.bind fun memory => held memory key

/-- What the disk tier holds for a key. -/
def diskHeld (c : DefaultCache Obj) (key : List Char) : Option (List Char) :=
  c.diskCache.bind fun disk => disk.get key

theorem cost_le_of_length_le {maxSize : UInt64} (hmax : 0 < maxSize) {n : ℕ}
    (hn : n ≤ maxSize.toNat) (key : List Char) (expiry : ℤ) (item : Option (Held Obj)) :
    presetModelSizeCacheCost ⟨key, expiry, item, UInt64.ofNat n⟩ ≤ maxSize := by
  unfold presetModelSizeCacheCost
  dsimp only
  split
  · rw [UInt64.lt_iff_toNat_lt] at hmax
    rw [UInt64.le_iff_toNat_le]
    exact hmax
  · rw [UInt64.le_iff_toNat_le, UInt64.toNat_ofNat']
    exact (Nat.mod_le _ _).trans hn

/-- A write puts itself in place when the memory tier does not hold its key, or the disk
tier already holds its text. -/
theorem serving_put {maxSize : UInt64} (hmax : 0 < maxSize) {s : DefaultCache Obj × Clock}
    (h : Tiered maxSize s.1) {call : Call Obj} {key encoded : List Char}
    {value : Option (Held Obj)} (hcall : Admissible call)
    (hputs : puts call = some (key, value, encoded, timeMax))
    (hsize : encoded.length ≤ maxSize.toNat)
    (hcond : memoryHeld s.1 key = none ∨ diskHeld s.1 key = some encoded)
    {values : Option (Held Obj) → Prop} (hvalue : values value) :
    Serving maxSize key encoded values (step s call).1 := by
  obtain ⟨memory, db, hs, hclean, hmemory⟩ := h
  have hstep : (step s call).1 = tiers
      (memory.put s.2 key value timeMax (UInt64.ofNat encoded.length)).1
      (if (memory.put s.2 key value timeMax (UInt64.ofNat encoded.length)).2.1 then
        db.insert key encoded else db) := by
    rw [step_of_puts hputs, hs]
    exact congrArg Prod.fst (putEncoded_tiers memory db s.2 key value encoded)
  have hmoves : Moves memory db s.2 call _ _ := .stored hputs
  refine ⟨_, _, hstep, clean_moves hcall hmoves hclean, (maxSize_moves hmoves).trans hmemory,
    ?_, fun tuple hheld => ?_⟩
  · split
    · rw [SortedMap.find_insert_self]
    · rename_i hfailed
      rw [hs] at hcond
      rcases hcond with hnone | hdisk
      · -- a new key that fits is stored, so the memory tier has not failed
        refine absurd ((put_inserted (memory, s.2) key value _ accepts_timeMax).mpr ⟨?_, ?_⟩)
          hfailed
        · cases hheld : held (memory.purgeExpired s.2).1 key with
          | none => rfl
          | some tuple =>
            have hheld' := ((held_purgeExpired memory s.2 key tuple).mp hheld).1
            exact absurd (hheld'.symm.trans hnone) (by simp)
        · rw [show (memory, s.2).1 = memory from rfl, hmemory]
          exact cost_le_of_length_le hmax hsize _ _ _
      · exact hdisk
  · rcases held_of_held_put (s := (memory, s.2)) accepts_timeMax hheld with
      ⟨-, rfl⟩ | ⟨hne, -⟩
    · exact hvalue
    · exact absurd rfl hne

theorem get_of_serving {maxSize : UInt64} {key encoded : List Char}
    {values : Option (Held Obj) → Prop} {s : DefaultCache Obj × Clock}
    (h : Serving maxSize key encoded values s.1) (decoder : List Char → Option (Held Obj)) :
    ∃ value, (s.1.get s.2 key decoder).2.1 = .ok value ∧
      (values value ∨ value = decoder encoded) := by
  obtain ⟨memory, db, hs, hclean, -, hdisk, hmemory⟩ := h
  have hget := get_tiers memory s.2 decoder (find_createExpiryKey hclean key)
  rw [← hs] at hget
  rcases hmem : memory.get s.2 key with ⟨memory', value, clock'⟩
  rw [hmem] at hget
  cases value with
  | none => exact ⟨decoder encoded, by simp [hget, hdisk], Or.inr rfl⟩
  | some value =>
    refine ⟨some value, by rw [hget], Or.inl ?_⟩
    rcases get_eq_none_or (memory, s.2) key with hnone | ⟨tuple, hheld, hitem⟩
    · simp [hmem] at hnone
    · have hvalue : some value = tuple.item := by simpa [hmem] using hitem
      rw [hvalue]
      exact hmemory tuple hheld

/-- A byte vector is what `Get` returns, cast. -/
theorem getData_of_get {c : DefaultCache Obj} {clock : Clock} {key : List Char}
    {value : Option (Held Obj)} (h : (c.get clock key asData).2.1 = .ok value) :
    (c.getData clock key).2.1 = castData value := by
  change (c.get clock key asData).2.1.bind castData = castData value
  rw [h]
  rfl

/-- One more reader can return what the earlier ones could, or its own reading. -/
theorem read_cons {value value' : Option (Held Obj)} {encoded : List Char}
    {decoder : List Char → Option (Held Obj)} {decoders : List (List Char → Option (Held Obj))}
    (h : (value' = value ∨ ∃ d ∈ decoders, value' = d encoded) ∨ value' = decoder encoded) :
    value' = value ∨ ∃ d ∈ decoder :: decoders, value' = d encoded := by
  rcases h with (rfl | ⟨d, hd, rfl⟩) | rfl
  · exact Or.inl rfl
  · exact Or.inr ⟨d, List.mem_cons_of_mem _ hd, rfl⟩
  · exact Or.inr ⟨decoder, List.mem_cons_self, rfl⟩

/-- The cache after `Open`, with both tiers configured: an empty memory tier over the content
of the disk. -/
def opened (maxSize : UInt64) (db : Database) : DefaultCache Obj :=
  tiers (InMemoryCache.new maxSize) db

/-- **A read returns the last write** of every run in which that write found its key absent
from the memory tier, or its own text on disk: the value written, or what the decoder of a
read since then makes of its text. The run up to the write and the calls after it are
arbitrary, evictions included.
SOURCE: DefaultCache.cpp:112-269 -/
theorem get_returns_last_put (maxSize : UInt64) (hmax : 0 < maxSize) (db : Database)
    (hclean : Clean db) (clock : Clock) (before after : List (Call Obj)) (call : Call Obj)
    (hcalls : ∀ call' ∈ before ++ call :: after, Admissible call') (key encoded : List Char)
    (value : Option (Held Obj)) (hputs : puts call = some (key, value, encoded, timeMax))
    (hsize : encoded.length ≤ maxSize.toNat)
    (huntouched : ∀ call' ∈ after, ¬ Touches key call')
    (hcond : memoryHeld (run (opened maxSize db, clock) before).1 key = none ∨
      diskHeld (run (opened maxSize db, clock) before).1 key = some encoded)
    (decoder : List Char → Option (Held Obj)) :
    let s := run (opened maxSize db, clock) (before ++ call :: after)
    (∃ value', (s.1.get s.2 key decoder).2.1 = .ok value' ∧
        (value' = value ∨ ∃ decoder' ∈ decoder :: decodersOf key after,
          value' = decoder' encoded)) ∧
      ∃ value', (s.1.getData s.2 key).2.1 = castData value' ∧
        (value' = value ∨ ∃ decoder' ∈ asData :: decodersOf key after,
          value' = decoder' encoded) := by
  intro s
  have hbefore : ∀ call' ∈ before, Admissible call' :=
    fun call' hmem => hcalls call' (List.mem_append_left _ hmem)
  have hcall : Admissible call :=
    hcalls call (List.mem_append_right _ List.mem_cons_self)
  have hafter : ∀ call' ∈ after, Admissible call' := fun call' hmem =>
    hcalls call' (List.mem_append_right _ (List.mem_cons_of_mem _ hmem))
  have htiered := tiered_run (s := (opened maxSize db, clock)) hbefore
    ⟨_, db, rfl, hclean, rfl⟩
  have hput : Serving maxSize key encoded
      (fun v => v = value ∨ ∃ d ∈ decodersOf key after, v = d encoded)
      (step (run (opened maxSize db, clock) before) call).1 :=
    serving_put hmax htiered hcall hputs hsize hcond (Or.inl rfl)
  have hs : Serving maxSize key encoded
      (fun v => v = value ∨ ∃ d ∈ decodersOf key after, v = d encoded) s.1 := by
    have hrun := serving_run hafter huntouched (fun d hd => Or.inr ⟨d, hd, rfl⟩) hput
    simpa [s, run, List.foldl_append] using hrun
  have hread : ∀ decoder : List Char → Option (Held Obj),
      ∃ value', (s.1.get s.2 key decoder).2.1 = .ok value' ∧
        (value' = value ∨ ∃ decoder' ∈ decoder :: decodersOf key after,
          value' = decoder' encoded) := by
    intro decoder
    obtain ⟨value', hget, hvalue⟩ := get_of_serving (s := s) hs decoder
    exact ⟨value', hget, read_cons hvalue⟩
  refine ⟨hread decoder, ?_⟩
  obtain ⟨value', hget, hvalue⟩ := hread asData
  exact ⟨value', getData_of_get hget, hvalue⟩

/-- The first write of a key is read back from disk once it has been evicted. -/
theorem getData_returns_evicted_put :
    let calls : List (Call ℕ) := [.putData ['k'] ['1'] timeMax,
      .putData ['o'] ['3', '3'] timeMax]
    let s := run (opened 2 SortedMap.empty, fun _ => 0) calls
    memoryHeld s.1 ['k'] = none ∧ (s.1.getData s.2 ['k']).2.1 = .ok (some ['1']) := by
  have hcalls : ∀ call ∈ ([] ++ .putData ['k'] ['1'] timeMax ::
      [.putData ['o'] ['3', '3'] timeMax] : List (Call ℕ)), Admissible call := by
    intro call hmem
    simp only [List.nil_append, List.mem_cons, List.not_mem_nil, or_false] at hmem
    rcases hmem with rfl | rfl
    · exact ⟨by decide, rfl⟩
    · exact ⟨by decide, rfl⟩
  have huntouched : ∀ call ∈ ([.putData ['o'] ['3', '3'] timeMax] : List (Call ℕ)),
      ¬ Touches ['k'] call := by
    intro call hmem
    rw [List.mem_singleton.mp hmem]
    simp [Touches]
  obtain ⟨-, value, hget, hvalue⟩ := get_returns_last_put 2 (by decide)
    SortedMap.empty (fun _ _ => SortedMap.find_empty _) (fun _ => 0) []
    [.putData ['o'] ['3', '3'] timeMax] (.putData ['k'] ['1'] timeMax) hcalls ['k'] ['1']
    (some (.data ['1'])) rfl (by decide) huntouched (Or.inl (by decide)) asData
  refine ⟨by decide, ?_⟩
  rcases hvalue with rfl | ⟨decoder, hmem, rfl⟩
  · exact hget
  · have hdecoder : decoder = asData := by simpa [decodersOf, reads] using hmem
    rw [hdecoder] at hget
    exact hget

/-- A second write of a key the memory tier holds never reaches the disk: once the key has
been evicted, the older value is read. -/
theorem getData_returns_older_put :
    let calls : List (Call ℕ) := [.putData ['k'] ['1'] timeMax, .putData ['k'] ['2'] timeMax,
      .putData ['o'] ['3', '3'] timeMax]
    let s := run (opened 2 SortedMap.empty, fun _ => 0) calls
    (∀ call ∈ calls, Admissible call) ∧
      ¬ Touches ['k'] (.putData ['o'] ['3', '3'] timeMax : Call ℕ) ∧
      (s.1.getData s.2 ['k']).2.1 = .ok (some ['1']) := by
  refine ⟨?_, by simp [Touches], by decide⟩
  intro call hmem
  simp only [List.mem_cons, List.not_mem_nil, or_false] at hmem
  rcases hmem with rfl | rfl | rfl
  · exact ⟨by decide, rfl⟩
  · exact ⟨by decide, rfl⟩
  · exact ⟨by decide, rfl⟩

end OlpEdgeSdk.Analysis.DefaultCache

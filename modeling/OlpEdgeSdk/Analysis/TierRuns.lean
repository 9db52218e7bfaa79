import OlpEdgeSdk.Analysis.DefaultCacheFrame

/-!
# Puts and Gets on every configuration

Runs of `Put`s of pairwise different keys and `Get`s, with any tiers: memory only, disk only,
both. A cache with a disk tier may be closed and opened again between two operations, which
empties its memory tier, so that later reads move values from disk to memory.

`Dated` is the invariant: every trace of a key, in the items and buckets of the memory tier and
in the two entries of the disk tier, has the deadline of the `Put` that has brought it.
-/

set_option autoImplicit false

namespace OlpEdgeSdk.Analysis.DefaultCache

open OlpEdgeSdk.Model OlpEdgeSdk.Base OlpEdgeSdk.Interface
open OlpEdgeSdk.Model.DefaultCache OlpEdgeSdk.Analysis.InMemoryCache

variable {Obj : Type}

/-! ## Runs -/

/-- A call at a time. Before it, a cache with a disk tier may be closed and opened again. -/
structure Op (Obj : Type) where
  reopens : Bool
  now : ℤ
  call : Call Obj

/-- The cache in which the call of an operation is made. -/
def ready (memorySize : Option UInt64) (withDisk : Bool) (c : DefaultCache Obj) (op : Op Obj) :
    DefaultCache Obj :=
  if withDisk && op.reopens then c.reopen memorySize else c

/-- The cache after a run of operations. -/
def runOps (memorySize : Option UInt64) (withDisk : Bool) (ops : List (Op Obj)) :
    DefaultCache Obj :=
  ops.foldl (fun c op => stepAt (ready memorySize withDisk c op) (op.now, op.call))
    (configured memorySize (emptyDisk withDisk))

/-- The calls of a run, with their times. -/
def timed (ops : List (Op Obj)) : List (ℤ × Call Obj) := ops.map fun op => (op.now, op.call)

/-- The key that is put, and the key that is put or read. -/
def putKey (call : Call Obj) : Option (List Char) := (puts call).map Prod.fst

def usedKey (call : Call Obj) : Option (List Char) :=
  (putKey call).or ((reads call).map Prod.fst)

/-- What an item of a size costs in the memory tier. -/
def itemCost (Obj : Type) (size : ℕ) : UInt64 :=
  presetModelSizeCacheCost (⟨[], 0, none, UInt64.ofNat size⟩ : ItemTuple (Held Obj))

/-- A key that is put, with the cost of its item. -/
def putCost (call : Call Obj) : Option (List Char × ℕ) :=
  (puts call).map fun p => (p.1, (itemCost Obj p.2.2.1.length).toNat)

/-- A run of `Put`s of pairwise different keys and `Get`s, with times and deadlines that `time_t`
can hold, values that are not empty and decoders that read the texts back. No key is the name
under which the disk tier keeps the deadline of another one, and the memory tier has room for
everything that is put. -/
structure PutsAndGets (memorySize : UInt64) (ops : List (Op Obj)) : Prop where
  calls : ∀ op ∈ ops, (usedKey op.call).isSome
  different : (ops.filterMap fun op => putKey op.call).Nodup
  times : ∀ op ∈ ops, 0 ≤ op.now ∧ op.now ≤ timeMax
  values : ∀ key value encoded t e, HasPut (timed ops) key value encoded t e → value.isSome
  expiries : ∀ key value encoded t e, HasPut (timed ops) key value encoded t e → e ≤ timeMax ∧
    (e < timeMax → -timeMax - 1 ≤ e + t ∧ e + t ≤ timeMax)
  decoders : ∀ key decoder value encoded t e, decoder ∈ decodersIn key (timed ops) →
    HasPut (timed ops) key value encoded t e → (decoder encoded).isSome
  apart : ∀ op ∈ ops, ∀ op' ∈ ops, ∀ key ∈ usedKey op.call, ∀ other ∈ usedKey op'.call,
    key ≠ createExpiryKey other
  room : ((ops.filterMap fun op => putCost op.call).map Prod.snd).sum ≤ memorySize.toNat

section

variable {memorySize : UInt64} {ops before after : List (Op Obj)} {op : Op Obj}
  {key encoded : List Char} {value : Option (Held Obj)} {t e : ℤ}

theorem mem_timed (h : op ∈ ops) : (op.now, op.call) ∈ timed ops := List.mem_map_of_mem h

theorem timed_append (ops more : List (Op Obj)) : timed (ops ++ more) = timed ops ++ timed more :=
  List.map_append

theorem exists_op_of_hasPut (h : HasPut (timed ops) key value encoded t e) :
    ∃ op ∈ ops, op.now = t ∧ puts op.call = some (key, value, encoded, e) := by
  obtain ⟨call, hmem, hputs⟩ := h
  obtain ⟨op, hop, heq⟩ := List.mem_map.mp hmem
  obtain ⟨rfl, rfl⟩ := Prod.mk.inj heq
  exact ⟨op, hop, rfl, hputs⟩

theorem hasPut_of_mem (hop : op ∈ ops) (hputs : puts op.call = some (key, value, encoded, e)) :
    HasPut (timed ops) key value encoded op.now e :=
  ⟨op.call, mem_timed hop, hputs⟩

theorem HasPut.of_before (hsplit : ops = before ++ after)
    (h : HasPut (timed before) key value encoded t e) :
    HasPut (timed ops) key value encoded t e := by
  rw [hsplit, timed_append]
  exact h.mono

theorem putKey_of_puts {call : Call Obj} (h : puts call = some (key, value, encoded, e)) :
    putKey call = some key := by
  rw [putKey, h]
  rfl

theorem usedKey_of_puts {call : Call Obj} (h : puts call = some (key, value, encoded, e)) :
    usedKey call = some key := by
  rw [usedKey, putKey_of_puts h]
  rfl

theorem usedKey_of_reads {call : Call Obj} {decoder : List Char → Option (Held Obj)}
    (h : reads call = some (key, decoder)) : usedKey call = some key := by
  cases call with
  | get | getData =>
    simp only [reads, Option.some.injEq, Prod.mk.injEq] at h
    obtain ⟨rfl, -⟩ := h
    rfl
  | put | putData | remove | removeKeysWithPrefix => simp [reads] at h

/-- No other operation puts the key. -/
theorem PutsAndGets.fresh (h : PutsAndGets memorySize ops) (hsplit : ops = before ++ op :: after)
    (hputs : puts op.call = some (key, value, encoded, e)) :
    ∀ other ∈ before ++ after, putKey other.call ≠ some key := by
  have hnd := h.different
  rw [hsplit, List.filterMap_append, List.filterMap_cons, putKey_of_puts hputs] at hnd
  rw [List.nodup_middle, List.nodup_cons, ← List.filterMap_append] at hnd
  intro other hother hkey
  exact hnd.1 (List.mem_filterMap.mpr ⟨other, hother, hkey⟩)

/-- A key has one `Put` in a run. -/
theorem PutsAndGets.unique (h : PutsAndGets memorySize ops) {value' : Option (Held Obj)}
    {encoded' : List Char} {t' e' : ℤ} (hput : HasPut (timed ops) key value encoded t e)
    (hput' : HasPut (timed ops) key value' encoded' t' e') :
    encoded' = encoded ∧ t' = t ∧ e' = e := by
  obtain ⟨op, hop, rfl, hputs⟩ := exists_op_of_hasPut hput
  obtain ⟨op', hop', rfl, hputs'⟩ := exists_op_of_hasPut hput'
  obtain ⟨before, after, hsplit⟩ := List.append_of_mem hop
  have hfresh := h.fresh hsplit hputs
  have hkey := putKey_of_puts hputs'
  rw [hsplit, List.mem_append, List.mem_cons] at hop'
  rcases hop' with hmem | rfl | hmem
  · exact absurd hkey (hfresh op' (List.mem_append_left _ hmem))
  · rw [hputs] at hputs'
    obtain ⟨-, rfl, rfl⟩ : value = value' ∧ encoded = encoded' ∧ e = e' := by
      simpa using hputs'
    exact ⟨rfl, rfl, rfl⟩
  · exact absurd hkey (hfresh op' (List.mem_append_right _ hmem))

theorem PutsAndGets.apart_of_mem (h : PutsAndGets memorySize ops) {op' : Op Obj} (hop : op ∈ ops)
    (hop' : op' ∈ ops) {other : List Char} (hkey : usedKey op.call = some key)
    (hother : usedKey op'.call = some other) : key ≠ createExpiryKey other :=
  h.apart op hop op' hop' key hkey other hother

end

/-! ## The memory tier, one call -/

/-- What a `Put` leaves for a key: its own item if it takes it, or what was there. -/
theorem held_put_accepted {memory : MemoryTier Obj} {now e : ℤ} {key other : List Char}
    {item : Option (Held Obj)} {size : UInt64} {tuple : ItemTuple (Held Obj)}
    (h : held (memory.put (atTime now) key item e size).1 other = some tuple) :
    (key = other ∧ Accepts e ∧ tuple = ⟨key, InMemoryCache.deadline now e, item, size⟩) ∨
      held memory other = some tuple := by
  by_cases haccepts : Accepts e
  · cases held_put_cases h with
    | inl hnew => exact Or.inl ⟨hnew.1, haccepts, hnew.2⟩
    | inr hheld => exact Or.inr hheld
  · rw [put_of_not_accepts (memory, atTime now) key item size haccepts] at h
    exact Or.inr ((held_purgeExpired memory (atTime now) other tuple).mp h).1

/-- What the buckets list after a `Put`: its key at its deadline, or what was there. -/
theorem lists_put_accepted {memory : MemoryTier Obj} {now e d : ℤ} {key other : List Char}
    {item : Option (Held Obj)} {size : UInt64}
    (h : Lists (memory.put (atTime now) key item e size).1 d other) :
    (key = other ∧ Accepts e ∧ d = InMemoryCache.deadline now e) ∨ Lists memory d other := by
  have hpurge : Lists (memory.purgeExpired (atTime now)).1 d other → Lists memory d other :=
    fun hlists => ((lists_purgeExpired memory (atTime now) d other).mp hlists).2
  by_cases haccepts : Accepts e
  · cases lists_put (s := (memory, atTime now)) haccepts h with
    | inl hlists => exact Or.inr (hpurge hlists)
    | inr hnew =>
      rw [putTime_atTime] at hnew
      exact Or.inl ⟨hnew.2, haccepts, hnew.1⟩
  · rw [put_of_not_accepts (memory, atTime now) key item size haccepts] at h
    exact Or.inr (hpurge h)

theorem heldIn_putIn_cases {memory : Option (MemoryTier Obj)} {now e : ℤ}
    {key other : List Char} {item : Option (Held Obj)} {size : ℕ}
    {tuple : ItemTuple (Held Obj)}
    (h : heldIn (putIn now memory key item e size) other = some tuple) :
    (key = other ∧ Accepts e ∧
        tuple = ⟨key, InMemoryCache.deadline now e, item, UInt64.ofNat size⟩) ∨
      heldIn memory other = some tuple := by
  cases memory with
  | none => cases h
  | some m => exact held_put_accepted h

theorem listsIn_putIn_cases {memory : Option (MemoryTier Obj)} {now e d : ℤ}
    {key other : List Char} {item : Option (Held Obj)} {size : ℕ}
    (h : ListsIn (putIn now memory key item e size) d other) :
    (key = other ∧ Accepts e ∧ d = InMemoryCache.deadline now e) ∨ ListsIn memory d other := by
  obtain ⟨m', hm', hlists⟩ := h
  obtain ⟨m, hm, rfl⟩ := Option.mem_map.mp hm'
  cases lists_put_accepted hlists with
  | inl hnew => exact Or.inl hnew
  | inr hlists => exact Or.inr ⟨m, hm, hlists⟩

/-! ## Traces and their deadlines -/

/-- The text of the deadline that a `Put` writes beside its value. -/
def expiryText (t e : ℤ) : Option (List Char) :=
  if e < timeMax then some (decimal (e + t)) else none

/-- Every trace of a key in the tiers has the deadline of the `Put` that has brought it. The
memory tier has only what `Put` accepts, and so has the disk tier behind it. -/
structure Dated (ops : List (Op Obj)) (calls : List (ℤ × Call Obj))
    (memory : Option (MemoryTier Obj)) (disk : Option Database) : Prop where
  held : ∀ key tuple, heldIn memory key = some tuple → ∃ value encoded t e,
    HasPut calls key value encoded t e ∧ Accepts e ∧ tuple.expiry = InMemoryCache.deadline t e ∧
      tuple.item.isSome ∧ tuple.size = UInt64.ofNat encoded.length
  lists : ∀ key d, ListsIn memory d key → ∃ value encoded t e,
    HasPut calls key value encoded t e ∧ d = InMemoryCache.deadline t e
  text : ∀ db ∈ disk, ∀ op ∈ ops, ∀ key ∈ usedKey op.call, ∀ encoded,
    db.find key = some encoded → ∃ value t e, HasPut calls key value encoded t e ∧
      db.find (createExpiryKey key) = expiryText t e ∧ (memory.isSome → Accepts e)
  deadline : ∀ db ∈ disk, ∀ op ∈ ops, ∀ key ∈ usedKey op.call,
    db.find (createExpiryKey key) ≠ none → ∃ value encoded t e, HasPut calls key value encoded t e

section

variable {memorySize : UInt64} {ops before after : List (Op Obj)} {op : Op Obj} {now : ℤ}
  {calls : List (ℤ × Call Obj)} {memory memory' : Option (MemoryTier Obj)}
  {disk disk' : Option Database} {key encoded : List Char} {t e : ℤ}

theorem Dated.mono (h : Dated ops calls memory disk) (more : List (ℤ × Call Obj)) :
    Dated ops (calls ++ more) memory disk where
  held other tuple hheld := by
    obtain ⟨value, text, t, e, hput, hrest⟩ := h.held other tuple hheld
    exact ⟨value, text, t, e, hput.mono, hrest⟩
  lists other d hlists := by
    obtain ⟨value, text, t, e, hput, hd⟩ := h.lists other d hlists
    exact ⟨value, text, t, e, hput.mono, hd⟩
  text db hdb op hop other hused text hfind := by
    obtain ⟨value, t, e, hput, hrest⟩ := h.text db hdb op hop other hused text hfind
    exact ⟨value, t, e, hput.mono, hrest⟩
  deadline db hdb op hop other hused hsome := by
    obtain ⟨value, text, t, e, hput⟩ := h.deadline db hdb op hop other hused hsome
    exact ⟨value, text, t, e, hput.mono⟩

/-- A memory tier with fewer items and bucket entries. -/
theorem Dated.memory_sub (h : Dated ops calls memory disk)
    (hheld : ∀ key tuple, heldIn memory' key = some tuple → heldIn memory key = some tuple)
    (hlists : ∀ key d, ListsIn memory' d key → ListsIn memory d key)
    (hsome : memory'.isSome → memory.isSome) : Dated ops calls memory' disk where
  held other tuple hother := h.held other tuple (hheld other tuple hother)
  lists other d hother := h.lists other d (hlists other d hother)
  text db hdb op hop other hused text hfind := by
    obtain ⟨value, t, e, hput, hexpiry, haccepts⟩ := h.text db hdb op hop other hused text hfind
    exact ⟨value, t, e, hput, hexpiry, fun hmemory => haccepts (hsome hmemory)⟩
  deadline := h.deadline

theorem Dated.lookedIn (h : Dated ops calls memory disk) (key : List Char) :
    Dated ops calls (lookedIn now memory key) disk := by
  apply h.memory_sub
  · intro other tuple hheld
    exact ((heldIn_lookedIn now memory key other tuple).mp hheld).1
  · intro other d hlists
    exact ((listsIn_lookedIn now d memory key other).mp hlists).1
  · intro hsome
    simpa [DefaultCache.lookedIn] using hsome

/-- An item that comes into the memory tier with the deadline of its `Put`. -/
theorem Dated.putIn (h : Dated ops calls memory disk) {value item : Option (Held Obj)} {left : ℤ}
    (hput : HasPut calls key value encoded t e) (haccepts : Accepts left → Accepts e)
    (hdeadline : InMemoryCache.deadline now left = InMemoryCache.deadline t e)
    (hitem : item.isSome) :
    Dated ops calls (putIn now memory key item left encoded.length) disk where
  held other tuple hheld := by
    rcases heldIn_putIn_cases hheld with ⟨rfl, hleft, rfl⟩ | hold
    · exact ⟨value, encoded, t, e, hput, haccepts hleft, hdeadline, hitem, rfl⟩
    · exact h.held other tuple hold
  lists other d hlists := by
    rcases listsIn_putIn_cases hlists with ⟨rfl, -, rfl⟩ | hold
    · exact ⟨value, encoded, t, e, hput, hdeadline⟩
    · exact h.lists other d hold
  text db hdb op hop other hused text hfind := by
    obtain ⟨value, t, e, hput, hexpiry, haccepts⟩ := h.text db hdb op hop other hused text hfind
    refine ⟨value, t, e, hput, hexpiry, fun hmemory => haccepts ?_⟩
    simpa [DefaultCache.putIn] using hmemory
  deadline := h.deadline

/-- The entries of a `Put` of a key that had none. -/
theorem Dated.written (h : Dated ops calls memory disk) (hops : PutsAndGets memorySize ops)
    (hop : op ∈ ops) {value : Option (Held Obj)}
    (hputs : puts op.call = some (key, value, encoded, e))
    (hput : HasPut calls key value encoded op.now e)
    (hnone : ∀ db ∈ disk, db.find (createExpiryKey key) = none)
    (haccepts : memory.isSome → Accepts e) :
    Dated ops calls memory (disk.map (written op.now key encoded e)) where
  held := h.held
  lists := h.lists
  text db' hdb' op' hop' other hused text hfind := by
    obtain ⟨db, hdb, rfl⟩ := Option.mem_map.mp hdb'
    have hkey := usedKey_of_puts hputs
    by_cases heq : other = key
    · subst heq
      rw [find_written_self] at hfind
      obtain rfl := Option.some.inj hfind
      refine ⟨value, op.now, e, hput, ?_, haccepts⟩
      rw [find_written_expiry, hnone db hdb]
      rfl
    · rw [find_written_other db heq (hops.apart_of_mem hop' hop hused hkey)] at hfind
      rw [find_written_other db (hops.apart_of_mem hop hop' hkey hused).symm
        (createExpiryKey_ne heq)]
      exact h.text db hdb op' hop' other hused text hfind
  deadline db' hdb' op' hop' other hused hsome := by
    obtain ⟨db, hdb, rfl⟩ := Option.mem_map.mp hdb'
    have hkey := usedKey_of_puts hputs
    by_cases heq : other = key
    · subst heq
      exact ⟨value, encoded, op.now, e, hput⟩
    · rw [find_written_other db (hops.apart_of_mem hop hop' hkey hused).symm
        (createExpiryKey_ne heq)] at hsome
      exact h.deadline db hdb op' hop' other hused hsome

theorem find_purgedDisk_other {db : Database} {other : List Char} (hkey : other ≠ key)
    (hexpiry : other ≠ createExpiryKey key) : (purgedDisk key db).find other = db.find other := by
  rw [purgedDisk, SortedMap.find_erase, if_neg hexpiry, SortedMap.find_erase, if_neg hkey]

/-- The entries of the other keys after a purge. -/
theorem Dated.purged {db : Database} (h : Dated ops calls memory (some db))
    (hops : PutsAndGets memorySize ops) (hop : op ∈ ops) (hkey : usedKey op.call = some key) :
    Dated ops calls memory (some (purgedDisk key db)) where
  held := h.held
  lists := h.lists
  text db' hdb' op' hop' other hused text hfind := by
    obtain rfl := Option.some.inj hdb'
    have hne : other ≠ key := by
      rintro rfl
      simp [purgedDisk, SortedMap.find_erase] at hfind
    rw [find_purgedDisk_other hne (hops.apart_of_mem hop' hop hused hkey)] at hfind
    rw [find_purgedDisk_other (hops.apart_of_mem hop hop' hkey hused).symm (createExpiryKey_ne hne)]
    exact h.text db rfl op' hop' other hused text hfind
  deadline db' hdb' op' hop' other hused hsome := by
    obtain rfl := Option.some.inj hdb'
    have hne : other ≠ key := by
      rintro rfl
      simp [purgedDisk, SortedMap.find_erase] at hsome
    rw [find_purgedDisk_other (hops.apart_of_mem hop hop' hkey hused).symm
      (createExpiryKey_ne hne)] at hsome
    exact h.deadline db rfl op' hop' other hused hsome

/-- The seconds that are left of a text, from the deadline of its `Put`. -/
theorem timeLeft_of_expiryText {db : Database}
    (hfind : db.find (createExpiryKey key) = expiryText t e)
    (hrange : e < timeMax → -timeMax - 1 ≤ e + t ∧ e + t ≤ timeMax) :
    timeLeft db key now = .ok (if e < timeMax then e + t - now else timeMax) := by
  unfold expiryText at hfind
  split at hfind
  · rename_i hlt
    obtain ⟨hlow, hhigh⟩ := hrange hlt
    rw [timeLeft_of_some hfind, stol_decimal hlow hhigh, if_pos hlt]
    rfl
  · rename_i hge
    rw [timeLeft_of_none hfind, if_neg hge]

/-- **A promotion keeps the deadline**: the time that is left, counted from now. -/
theorem deadline_left (hnow : 0 ≤ now) (he : e ≤ timeMax) (hhigh : e < timeMax → e + t ≤ timeMax) :
    InMemoryCache.deadline now (if e < timeMax then e + t - now else timeMax) =
      InMemoryCache.deadline t e := by
  by_cases hlt : e < timeMax
  · have hsum := hhigh hlt
    have hexpires : hasExpiry e = true := by simpa [hasExpiry] using hlt.ne
    simp only [hlt, if_true, InMemoryCache.deadline, hexpires]
    split
    · omega
    · rename_i hnever
      have hleft : e + t - now = timeMax := by simpa [hasExpiry] using hnever
      omega
  · obtain rfl : e = timeMax := le_antisymm he (not_lt.mp hlt)
    simp [InMemoryCache.deadline, hasExpiry]

theorem fresh_of_split (hops : PutsAndGets memorySize ops) (hsplit : ops = before ++ op :: after)
    {value value' : Option (Held Obj)} {encoded' : List Char} {t' e' : ℤ}
    (hputs : puts op.call = some (key, value, encoded, e)) :
    ¬ HasPut (timed before) key value' encoded' t' e' := by
  intro hput
  obtain ⟨other, hmem, -, hother⟩ := exists_op_of_hasPut hput
  exact hops.fresh hsplit hputs other (List.mem_append_left _ hmem) (putKey_of_puts hother)

theorem Dated.grown (h : Dated ops (timed before) memory disk) (op : Op Obj) :
    Dated ops (timed (before ++ [op])) memory disk := by
  rw [timed_append]
  exact h.mono _

theorem hasPut_of_concat (hsplit : ops = before ++ op :: after) {value : Option (Held Obj)}
    (h : HasPut (timed (before ++ [op])) key value encoded t e) :
    HasPut (timed ops) key value encoded t e :=
  HasPut.of_before (hsplit.trans (List.append_cons before op after)) h

/-- The item of a `Put`. -/
theorem Dated.item (h : Dated ops (timed before) memory disk) (hops : PutsAndGets memorySize ops)
    (hsplit : ops = before ++ op :: after) {value : Option (Held Obj)}
    (hputs : puts op.call = some (key, value, encoded, e)) :
    Dated ops (timed (before ++ [op])) (DefaultCache.putIn op.now memory key value e encoded.length)
      disk := by
  have hput : HasPut (timed (before ++ [op])) key value encoded op.now e :=
    hasPut_of_mem (by simp) hputs
  exact (h.grown op).putIn hput id rfl (hops.values _ _ _ _ _ (hasPut_of_concat hsplit hput))

/-- **A promotion** brings the text of a `Put` and the time that is left of it. -/
theorem Dated.promoted {db : Database} (h : Dated ops (timed before) memory (some db))
    (hops : PutsAndGets memorySize ops) (hsplit : ops = before ++ op :: after)
    {decoder : List Char → Option (Held Obj)} {left : ℤ}
    (hreads : reads op.call = some (key, decoder)) (hleft : timeLeft db key op.now = .ok left)
    (hfind : db.find key = some encoded) :
    Dated ops (timed (before ++ [op]))
      (DefaultCache.putIn op.now (DefaultCache.lookedIn op.now memory key) key (decoder encoded)
        left encoded.length) (some db) := by
  have hop : op ∈ ops := by simp [hsplit]
  have hgrown := h.grown op
  obtain ⟨value, t, e, hput, hexpiry, haccepts⟩ :=
    hgrown.text db rfl op hop key (usedKey_of_reads hreads) encoded hfind
  have hput' := hasPut_of_concat hsplit hput
  obtain ⟨he, hrange⟩ := hops.expiries _ _ _ _ _ hput'
  rw [timeLeft_of_expiryText hexpiry hrange] at hleft
  obtain rfl := Except.ok.inj hleft
  have hdecodes : (decoder encoded).isSome := by
    apply hops.decoders key decoder value encoded t e _ hput'
    exact mem_decodersOf (List.mem_map_of_mem (mem_timed hop)) hreads
  cases memory with
  | none =>
    apply hgrown.memory_sub
    · intro other tuple hheld
      cases hheld
    · rintro other d ⟨m, hm, -⟩
      cases hm
    · exact id
  | some m =>
    exact (hgrown.lookedIn key).putIn hput (fun _ => haccepts rfl)
      (deadline_left (hops.times op hop).1 he fun hlt => (hrange hlt).2) hdecodes

/-- **Step.** The traces that an operation leaves have the deadlines of their `Put`s. -/
theorem Dated.moved (h : Dated ops (timed before) memory disk) (hops : PutsAndGets memorySize ops)
    (hsplit : ops = before ++ op :: after) {call : Call Obj} (hcall : op.call = call)
    (hmoved : Moved op.now memory disk call memory' disk') :
    Dated ops (timed (before ++ [op])) memory' disk' := by
  have hop : op ∈ ops := by simp [hsplit]
  cases hmoved with
  | written hputs htaken =>
    rename_i key encoded value e
    rw [← hcall] at hputs
    apply (h.item hops hsplit hputs).written hops hop hputs (hasPut_of_mem (by simp) hputs)
    · intro db hdb
      by_contra hsome
      obtain ⟨_, _, _, _, hold⟩ := h.deadline db hdb op hop key (usedKey_of_puts hputs) hsome
      exact fresh_of_split hops hsplit hputs hold
    · intro hsome
      have hmemory : memory.isSome := by simpa [DefaultCache.putIn] using hsome
      obtain ⟨m, rfl⟩ := Option.isSome_iff_exists.mp hmemory
      exact ((taken_iff_admits.mp htaken) m rfl).1
  | refused hputs => exact h.item hops hsplit (hcall ▸ hputs)
  | read hreads hgot =>
    rename_i key decoder result
    rw [← hcall] at hreads
    have hlooked : Dated ops (timed (before ++ [op]))
        (DefaultCache.lookedIn op.now memory key) disk := (h.grown op).lookedIn key
    cases hgot with
    | found => exact hlooked
    | missed => exact hlooked
    | faulted => exact hlooked
    | purged hdisk =>
      subst hdisk
      exact hlooked.purged hops hop (usedKey_of_reads hreads)
    | promoted hdisk hleft hlive hfind =>
      subst hdisk
      exact h.promoted hops hsplit hreads hleft hfind
  | removed key =>
    have hnone := hops.calls op hop
    rw [hcall] at hnone
    cases hnone
  | prefixRemoved keyPrefix =>
    have hnone := hops.calls op hop
    rw [hcall] at hnone
    cases hnone

/-! ## Runs keep the deadlines -/

/-- The tiers are those that are configured. -/
structure Configured (memorySize : Option UInt64) (withDisk : Bool)
    (memory : Option (MemoryTier Obj)) (disk : Option Database) : Prop where
  memory : memory.map (fun m => m.itemTuples.maxSize) = memorySize
  disk : disk.isSome = withDisk

theorem maxSize_putIn (now : ℤ) (memory : Option (MemoryTier Obj)) (key : List Char)
    (item : Option (Held Obj)) (e : ℤ) (size : ℕ) :
    (putIn now memory key item e size).map (fun m => m.itemTuples.maxSize) =
      memory.map fun m => m.itemTuples.maxSize := by
  cases memory with
  | none => rfl
  | some m => exact congrArg some (maxSize_put (m, atTime now) key item e (UInt64.ofNat size))

theorem maxSize_lookedIn (now : ℤ) (memory : Option (MemoryTier Obj)) (key : List Char) :
    (lookedIn now memory key).map (fun m => m.itemTuples.maxSize) =
      memory.map fun m => m.itemTuples.maxSize := by
  cases memory with
  | none => rfl
  | some m => exact congrArg some (maxSize_get m (atTime now) key)

theorem Configured.moved {memorySize : Option UInt64} {withDisk : Bool} {call : Call Obj}
    (h : Configured memorySize withDisk memory disk) (hused : (usedKey call).isSome)
    (hmoved : Moved now memory disk call memory' disk') :
    Configured memorySize withDisk memory' disk' := by
  cases hmoved with
  | written =>
    exact ⟨(maxSize_putIn _ _ _ _ _ _).trans h.memory, (Option.isSome_map ..).trans h.disk⟩
  | refused => exact ⟨(maxSize_putIn _ _ _ _ _ _).trans h.memory, h.disk⟩
  | read hreads hgot =>
    rename_i key decoder result
    have hlooked := (maxSize_lookedIn now memory key).trans h.memory
    cases hgot with
    | found | missed | faulted => exact ⟨hlooked, h.disk⟩
    | purged hdisk =>
      subst hdisk
      exact ⟨hlooked, h.disk⟩
    | promoted => exact ⟨(maxSize_putIn _ _ _ _ _ _).trans hlooked, h.disk⟩
  | removed => cases hused
  | prefixRemoved => cases hused

end

section

variable {memorySize : Option UInt64} {withDisk : Bool} {size : UInt64}
  {ops before after : List (Op Obj)} {op : Op Obj} {memory : Option (MemoryTier Obj)}
  {disk : Option Database}

theorem runOps_concat (memorySize : Option UInt64) (withDisk : Bool) (ops : List (Op Obj))
    (op : Op Obj) : runOps memorySize withDisk (ops ++ [op]) =
      stepAt (ready memorySize withDisk (runOps memorySize withDisk ops) op) (op.now, op.call) :=
  List.foldl_concat _ _ _ _

@[simp] theorem heldIn_new (memorySize : Option UInt64) (key : List Char) :
    heldIn (memorySize.map InMemoryCache.new : Option (MemoryTier Obj)) key = none := by
  cases memorySize with
  | none => rfl
  | some size => simp [heldIn, held, InMemoryCache.new]

theorem not_listsIn_new (memorySize : Option UInt64) (d : ℤ) (key : List Char) :
    ¬ ListsIn (memorySize.map InMemoryCache.new : Option (MemoryTier Obj)) d key := by
  rintro ⟨m, hm, tuple, hmem, -⟩
  obtain ⟨size, -, rfl⟩ := Option.mem_map.mp hm
  simp [InMemoryCache.new, Model.InMemoryCache.bucket] at hmem

/-- Opening the cache again empties the memory tier. -/
theorem ready_tiersOf (h : Configured memorySize withDisk memory disk)
    (hdated : Dated ops (timed before) memory disk) (op : Op Obj) :
    ∃ memory', ready memorySize withDisk (tiersOf memory disk) op = tiersOf memory' disk ∧
      Configured memorySize withDisk memory' disk ∧ Dated ops (timed before) memory' disk ∧
      (withDisk = false → memory' = memory) := by
  unfold ready
  by_cases hreopens : (withDisk && op.reopens) = true
  · rw [if_pos hreopens]
    refine ⟨memorySize.map InMemoryCache.new, rfl, ⟨?_, h.disk⟩, ?_, ?_⟩
    · cases memorySize with
      | none => rfl
      | some size => rfl
    · apply hdated.memory_sub
      · intro key tuple hheld
        rw [heldIn_new] at hheld
        cases hheld
      · exact fun key d hlists => absurd hlists (not_listsIn_new memorySize d key)
      · intro hsome
        rw [← h.memory] at hsome
        simpa using hsome
    · intro hnot
      rw [hnot] at hreopens
      cases hreopens
  · rw [if_neg hreopens]
    exact ⟨memory, rfl, h, hdated, fun _ => rfl⟩

/-- **Run.** In every configuration, every trace of a key has the deadline of its `Put`. -/
theorem dated_runOps (memorySize : Option UInt64) (withDisk : Bool)
    (hops : PutsAndGets size ops) (hsplit : ops = before ++ after) :
    ∃ memory disk, runOps memorySize withDisk before = tiersOf memory disk ∧
      Configured memorySize withDisk memory disk ∧ Dated ops (timed before) memory disk := by
  have hempty : ∀ db ∈ emptyDisk withDisk, ∀ entry, db.find entry = none := by
    intro db hdb entry
    unfold emptyDisk at hdb
    split at hdb
    · rw [← Option.some.inj hdb]
      rfl
    · cases hdb
  induction before using List.reverseRecOn generalizing after with
  | nil =>
    refine ⟨_, _, rfl, ⟨?_, ?_⟩, ⟨?_, ?_, ?_, ?_⟩⟩
    · cases memorySize with
      | none => rfl
      | some size => rfl
    · cases withDisk with
      | false => rfl
      | true => rfl
    · intro key tuple hheld
      rw [heldIn_new] at hheld
      cases hheld
    · exact fun key d hlists => absurd hlists (not_listsIn_new memorySize d key)
    · intro db hdb op _ key _ encoded hfind
      rw [hempty db hdb] at hfind
      cases hfind
    · intro db hdb op _ key _ hsome
      rw [hempty db hdb] at hsome
      exact absurd rfl hsome
  | append_singleton before op ih =>
    rw [List.append_assoc, List.singleton_append] at hsplit
    obtain ⟨memory, disk, hrun, hconf, hdated⟩ := ih hsplit
    obtain ⟨memory', hready, hconf', hdated', -⟩ := ready_tiersOf hconf hdated op
    obtain ⟨memory'', disk'', hstep, hmoved⟩ := moved_stepAt memory' disk op.now op.call
    refine ⟨memory'', disk'', ?_, ?_, hdated'.moved hops hsplit rfl hmoved⟩
    · rw [runOps_concat, hrun, hready, hstep]
    · exact hconf'.moved (hops.calls op (by simp [hsplit])) hmoved

end

end OlpEdgeSdk.Analysis.DefaultCache

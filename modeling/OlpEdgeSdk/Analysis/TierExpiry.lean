import OlpEdgeSdk.Analysis.TierRuns
import OlpEdgeSdk.Interface.RecencyCalls

/-!
# When the tiers let a value expire

The memory tier returns an item up to the second of its deadline (InMemoryCache.cpp:88,
`expiryTime < m_timeProvider()`), and the disk tier up to the second before
(DefaultCache.cpp:183, 219, `expiry <= 0`). In that one second a cache with the item in memory
returns it and a cache that has it on disk only does not: `expires_a_second_apart`.

`tiers_expire_together_iff` says that this second is all there is between them.
-/

set_option autoImplicit false

namespace OlpEdgeSdk.Analysis.DefaultCache

open OlpEdgeSdk.Model OlpEdgeSdk.Base OlpEdgeSdk.Interface
open OlpEdgeSdk.Model.DefaultCache OlpEdgeSdk.Analysis.InMemoryCache

variable {Obj : Type}

/-! ## Room in the memory tier -/

section

variable {size : UInt64} {ops before after : List (Op Obj)} {op : Op Obj}
  {memory : Option (MemoryTier Obj)} {disk : Option Database} {key encoded : List Char}
  {value : Option (Held Obj)} {t e : ℤ}

theorem mem_putCosts (h : HasPut (timed ops) key value encoded t e) :
    (key, (itemCost Obj encoded.length).toNat) ∈ ops.filterMap fun op => putCost op.call := by
  obtain ⟨op, hop, -, hputs⟩ := exists_op_of_hasPut h
  apply List.mem_filterMap.mpr
  refine ⟨op, hop, ?_⟩
  rw [putCost, hputs]
  rfl

theorem cost_eq_itemCost {tuple : ItemTuple (Held Obj)} {n : ℕ}
    (h : tuple.size = UInt64.ofNat n) : presetModelSizeCacheCost tuple = itemCost Obj n := by
  simp only [itemCost, presetModelSizeCacheCost, h]

/-- The memory tier has room for the item of a `Put`. -/
def HasRoom (now : ℤ) (memory : Option (MemoryTier Obj)) (key : List Char)
    (value : Option (Held Obj)) (e : ℤ) (size : ℕ) : Prop :=
  ∀ m ∈ memory, Fits (m.purgeExpired (atTime now)).1
    (stored (m, atTime now) key value e (UInt64.ofNat size))

theorem HasRoom.noneDropped {now : ℤ} {n : ℕ} (h : HasRoom now memory key value e n) :
    NoneDropped now memory key value e n :=
  fun m hm => congrArg Prod.snd (Recency.insertOrAssign_of_weight_le (h m hm))

theorem HasRoom.heldIn_self {now : ℤ} {n : ℕ} (h : HasRoom now memory key value e n)
    (hsome : memory.isSome) (haccepts : Accepts e) :
    ∃ tuple, heldIn (putIn now memory key value e n) key = some tuple := by
  obtain ⟨m, rfl⟩ := Option.isSome_iff_exists.mp hsome
  have hheld := held_put (s := (m, atTime now)) haccepts (h m rfl) key
  rw [if_pos rfl] at hheld
  exact ⟨_, hheld⟩

/-- Everything that a run puts fits. -/
theorem Dated.hasRoom (h : Dated ops (timed before) memory disk) (hops : PutsAndGets size ops)
    (hsplit : ops = before ++ op :: after) (hmax : ∀ m ∈ memory, m.itemTuples.maxSize = size)
    (hputs : puts op.call = some (key, value, encoded, e)) :
    HasRoom op.now memory key value e encoded.length := by
  rintro m rfl
  unfold Fits
  rw [maxSize_purgeExpired, hmax m rfl]
  have hnd := Assoc.nodup_put (m.purgeExpired (atTime op.now)).1.itemTuples.nodup key
    (stored (m, atTime op.now) key value e (UInt64.ofNat encoded.length))
  refine le_trans (Recency.weight_le_sum hnd ?_) hops.room
  rintro ⟨other, tuple⟩ hitem
  have hvalue := Assoc.valueOf_of_mem hnd hitem
  rw [Assoc.valueOf_put] at hvalue
  split at hvalue
  · rename_i heq
    cases hvalue
    subst heq
    have hput : HasPut (timed ops) key value encoded op.now e :=
      hasPut_of_mem (by simp [hsplit]) hputs
    exact mem_putCosts hput
  · have hheld := ((held_purgeExpired m (atTime op.now) other tuple).mp hvalue).1
    obtain ⟨_, text, t', e', hput, -, -, -, hsize⟩ := h.held other tuple hheld
    rw [cost_eq_itemCost hsize]
    exact mem_putCosts (hput.of_before hsplit)

/-- A `Put` with an expiry in the future, or none, is taken. -/
theorem Dated.taken (h : Dated ops (timed before) memory disk) (hops : PutsAndGets size ops)
    (hsplit : ops = before ++ op :: after) (hmax : ∀ m ∈ memory, m.itemTuples.maxSize = size)
    (hputs : puts op.call = some (key, value, encoded, e))
    (haccepts : memory.isSome → Accepts e) : Taken op.now memory key value e encoded.length := by
  apply taken_iff_admits.mpr
  rintro m rfl
  refine ⟨haccepts rfl, fun tuple hheld => ?_, ?_⟩
  · obtain ⟨_, _, _, _, hold, -⟩ := h.held key tuple hheld
    exact absurd hold (fresh_of_split hops hsplit hputs)
  · have hput : HasPut (timed ops) key value encoded op.now e :=
      hasPut_of_mem (by simp [hsplit]) hputs
    rw [hmax m rfl, cost_eq_itemCost (n := encoded.length) rfl, UInt64.le_iff_toNat_le]
    refine le_trans ?_ hops.room
    exact List.le_sum_of_mem (List.mem_map_of_mem (mem_putCosts hput))

end

/-! ## A tier keeps a value up to its deadline -/

section

variable {size : UInt64} {ops before after : List (Op Obj)} {op : Op Obj}
  {memory memory' : Option (MemoryTier Obj)} {disk disk' : Option Database} {db : Database}
  {key encoded : List Char} {tuple : ItemTuple (Held Obj)} {call : Call Obj} {t e : ℤ}

/-- **Step.** A memory tier without a disk tier beside it keeps an item in an operation that does
not put its key and is not made after the deadlines at which its key is listed. -/
theorem heldIn_moved (h : Dated ops (timed before) memory none) (hops : PutsAndGets size ops)
    (hsplit : ops = before ++ op :: after) (hmax : ∀ m ∈ memory, m.itemTuples.maxSize = size)
    (hheld : heldIn memory key = some tuple) (hlists : ∀ d, ListsIn memory d key → op.now ≤ d)
    (hother : putKey op.call ≠ some key) (hcall : op.call = call)
    (hmoved : Moved op.now memory none call memory' disk') : heldIn memory' key = some tuple := by
  have hput : ∀ {other encoded : List Char} {value : Option (Held Obj)} {e : ℤ},
      puts op.call = some (other, value, encoded, e) →
        heldIn (putIn op.now memory other value e encoded.length) key = some tuple := by
    intro other encoded value e hputs
    have hne : other ≠ key := by
      rintro rfl
      exact hother (putKey_of_puts hputs)
    apply (heldIn_putIn hne (h.hasRoom hops hsplit hmax hputs).noneDropped tuple).mpr
    exact ⟨hheld, fun d hd hlisted => absurd (hlists d hlisted) (not_le.mpr hd)⟩
  have hlooked : ∀ other, heldIn (lookedIn op.now memory other) key = some tuple := by
    intro other
    apply (heldIn_lookedIn op.now memory other key tuple).mpr
    exact ⟨hheld, fun old _ hd hlisted => absurd (hlists _ hlisted) (not_le.mpr hd)⟩
  have hused := hops.calls op (by simp [hsplit])
  rw [hcall] at hused
  cases hmoved with
  | written hputs => exact hput (hcall ▸ hputs)
  | refused hputs => exact hput (hcall ▸ hputs)
  | read hreads hgot =>
    cases hgot with
    | found => exact hlooked _
    | missed => exact hlooked _
    | faulted hdisk => cases hdisk
    | purged hdisk => cases hdisk
    | promoted hdisk => cases hdisk
  | removed => cases hused
  | prefixRemoved => cases hused

/-- **Step.** A disk tier keeps a text in an operation that does not put its key and is made
before its deadline. -/
theorem find_moved (h : Dated ops (timed before) memory (some db)) (hops : PutsAndGets size ops)
    (hsplit : ops = before ++ op :: after) (hfind : db.find key = some encoded)
    {value : Option (Held Obj)} (hput : HasPut (timed before) key value encoded t e)
    (hearly : e < timeMax → op.now < e + t) (hother : putKey op.call ≠ some key)
    (hcall : op.call = call) (hmoved : Moved op.now memory (some db) call memory' disk') :
    ∃ db', disk' = some db' ∧ db'.find key = some encoded := by
  have hop : op ∈ ops := by simp [hsplit]
  obtain ⟨p, hp, -, hputs⟩ := exists_op_of_hasPut hput
  have hp : p ∈ ops := by simp [hsplit, hp]
  have hkey := usedKey_of_puts hputs
  have hused := hops.calls op hop
  rw [hcall] at hused
  cases hmoved with
  | written hwrites =>
    rw [← hcall] at hwrites
    refine ⟨_, rfl, ?_⟩
    rw [find_written_other, hfind]
    · rintro rfl
      exact hother (putKey_of_puts hwrites)
    · exact hops.apart_of_mem hp hop hkey (usedKey_of_puts hwrites)
  | refused => exact ⟨db, rfl, hfind⟩
  | read hreads hgot =>
    rename_i other decoder result
    rw [← hcall] at hreads
    cases hgot with
    | found | missed | faulted | promoted => exact ⟨db, rfl, hfind⟩
    | purged hdisk hleft hexpired =>
      obtain rfl := Option.some.inj hdisk
      refine ⟨_, rfl, ?_⟩
      rw [find_purgedDisk_other, hfind]
      · -- the key itself is not purged: its deadline has not passed
        rintro rfl
        obtain ⟨_, t', e', hput', hexpiry, -⟩ := h.text db rfl op hop key
          (usedKey_of_reads hreads) encoded hfind
        obtain ⟨-, rfl, rfl⟩ := hops.unique (hput.of_before hsplit) (hput'.of_before hsplit)
        obtain ⟨he, hrange⟩ := hops.expiries _ _ _ _ _ (hput.of_before hsplit)
        rw [timeLeft_of_expiryText hexpiry hrange] at hleft
        obtain rfl := Except.ok.inj hleft
        split at hexpired
        · rename_i hlt
          have hbefore := hearly hlt
          omega
        · exact absurd hexpired (by decide)
      · exact hops.apart_of_mem hp hop hkey (usedKey_of_reads hreads)
  | removed => cases hused
  | prefixRemoved => cases hused

end

section

variable {size : UInt64} {ops before between after : List (Op Obj)} {p op : Op Obj}
  {memory : Option (MemoryTier Obj)} {disk : Option Database} {key encoded : List Char}
  {value : Option (Held Obj)} {e : ℤ}

theorem Configured.maxSize {memorySize : Option UInt64} {withDisk : Bool}
    (h : Configured memorySize withDisk memory disk) (hsize : ∀ s ∈ memorySize, s = size) :
    ∀ m ∈ memory, m.itemTuples.maxSize = size := by
  rintro m rfl
  exact hsize _ h.memory.symm

/-- The operation that puts a key, after which the key is in every tier that accepts it. -/
theorem put_runOps {memorySize : Option UInt64} (withDisk : Bool)
    (hsize : ∀ s ∈ memorySize, s = size) (hops : PutsAndGets size ops)
    (hsplit : ops = before ++ p :: after) (hputs : puts p.call = some (key, value, encoded, e))
    (haccepts : memorySize.isSome → Accepts e) :
    ∃ memory disk, runOps memorySize withDisk (before ++ [p]) =
        tiersOf (putIn p.now memory key value e encoded.length)
          (disk.map (written p.now key encoded e)) ∧
      Configured memorySize withDisk memory disk ∧ Dated ops (timed before) memory disk ∧
      Taken p.now memory key value e encoded.length ∧
      HasRoom p.now memory key value e encoded.length := by
  obtain ⟨memory, disk, hrun, hconf, hdated⟩ := dated_runOps memorySize withDisk hops hsplit
  obtain ⟨memory', hready, hconf', hdated', -⟩ := ready_tiersOf hconf hdated p
  have hmax := hconf'.maxSize hsize
  have htaken : Taken p.now memory' key value e encoded.length := by
    apply hdated'.taken hops hsplit hmax hputs
    intro hsome
    apply haccepts
    rw [← hconf'.memory]
    simpa using hsome
  refine ⟨memory', disk, ?_, hconf', hdated', htaken,
    hdated'.hasRoom hops hsplit hmax hputs⟩
  rw [runOps_concat, hrun, hready]
  unfold stepAt
  rw [step_of_puts hputs]
  exact congrArg Prod.fst (putEncoded_taken disk htaken)

/-- **Run.** A cache without a disk tier keeps an item that it has accepted up to its deadline. -/
theorem heldIn_runOps (hops : PutsAndGets size ops)
    (hsplit : ops = (before ++ p :: between) ++ after)
    (hputs : puts p.call = some (key, value, encoded, e)) (haccepts : Accepts e)
    (hlate : ∀ s ∈ between, s.now ≤ InMemoryCache.deadline p.now e) :
    ∃ memory tuple, runOps (some size) false (before ++ p :: between) = tiersOf memory none ∧
      Configured (some size) false memory none ∧
      Dated ops (timed (before ++ p :: between)) memory none ∧
      heldIn memory key = some tuple := by
  have hsize : ∀ s ∈ some size, s = size := fun s hs => (Option.some.inj hs).symm
  have hnone : ∀ {memory : Option (MemoryTier Obj)} {disk : Option Database},
      Configured (some size) false memory disk → disk = none := by
    intro memory disk hconf
    exact Option.isSome_eq_false_iff.mp hconf.disk |> Option.isNone_iff_eq_none.mp
  induction between using List.reverseRecOn generalizing after with
  | nil =>
    rw [List.append_assoc, List.cons_append, List.nil_append] at hsplit
    obtain ⟨memory, disk, hrun, hconf, hdated, htaken, hroom⟩ :=
      put_runOps false hsize hops hsplit hputs fun _ => haccepts
    obtain rfl := hnone hconf
    have hmoved : Moved p.now memory none p.call _ _ := .written hputs htaken
    have hsome : memory.isSome := by
      have hmemory := congrArg Option.isSome hconf.memory
      simpa using hmemory
    obtain ⟨tuple, hheld⟩ := hroom.heldIn_self hsome haccepts
    refine ⟨_, tuple, hrun, ?_, hdated.moved hops hsplit rfl hmoved, hheld⟩
    exact hconf.moved (hops.calls p (by simp [hsplit])) hmoved
  | append_singleton between s ih =>
    have hassoc : before ++ p :: (between ++ [s]) = (before ++ p :: between) ++ [s] := by simp
    rw [hassoc, List.append_assoc, List.singleton_append] at hsplit
    obtain ⟨memory, tuple, hrun, hconf, hdated, hheld⟩ := ih hsplit fun s' hs' =>
      hlate s' (List.mem_append_left _ hs')
    obtain ⟨memory', disk', hstep, hmoved⟩ := moved_stepAt memory none s.now s.call
    have hconf' := hconf.moved (hops.calls s (by simp [hsplit])) hmoved
    obtain rfl := hnone hconf'
    rw [hassoc]
    refine ⟨memory', tuple, ?_, hconf', hdated.moved hops hsplit rfl hmoved, ?_⟩
    · rw [runOps_concat, hrun, ← hstep]
      rfl
    · apply heldIn_moved hdated hops hsplit (hconf.maxSize hsize) hheld _ _ rfl hmoved
      · intro d hlisted
        obtain ⟨_, _, t', e', hput, rfl⟩ := hdated.lists key d hlisted
        have hput' : HasPut (timed (before ++ p :: between)) key value encoded p.now e :=
          hasPut_of_mem (by simp) hputs
        obtain ⟨-, rfl, rfl⟩ := hops.unique (hput'.of_before hsplit) (hput.of_before hsplit)
        exact hlate s (List.mem_append_right _ (List.mem_singleton.mpr rfl))
      · have hsplit' : ops = before ++ p :: (between ++ s :: after) := by simp [hsplit]
        exact hops.fresh hsplit' hputs s (by simp)

/-- **Run.** A cache with a disk tier keeps the text of a value that it has accepted as long as
the clock has not reached its deadline. -/
theorem find_runOps {memorySize : Option UInt64} (hsize : ∀ s ∈ memorySize, s = size)
    (hops : PutsAndGets size ops) (hsplit : ops = (before ++ p :: between) ++ after)
    (hputs : puts p.call = some (key, value, encoded, e))
    (haccepts : memorySize.isSome → Accepts e)
    (hearly : ∀ s ∈ between, e < timeMax → s.now < e + p.now) :
    ∃ memory db, runOps memorySize true (before ++ p :: between) = tiersOf memory (some db) ∧
      Configured memorySize true memory (some db) ∧
      Dated ops (timed (before ++ p :: between)) memory (some db) ∧
      db.find key = some encoded := by
  induction between using List.reverseRecOn generalizing after with
  | nil =>
    rw [List.append_assoc, List.cons_append, List.nil_append] at hsplit
    obtain ⟨memory, disk, hrun, hconf, hdated, htaken, -⟩ :=
      put_runOps true hsize hops hsplit hputs haccepts
    obtain ⟨db, rfl⟩ := Option.isSome_iff_exists.mp hconf.disk
    have hmoved : Moved p.now memory (some db) p.call _ _ := .written hputs htaken
    refine ⟨_, _, hrun, ?_, hdated.moved hops hsplit rfl hmoved, find_written_self ..⟩
    exact hconf.moved (hops.calls p (by simp [hsplit])) hmoved
  | append_singleton between s ih =>
    have hassoc : before ++ p :: (between ++ [s]) = (before ++ p :: between) ++ [s] := by simp
    rw [hassoc, List.append_assoc, List.singleton_append] at hsplit
    obtain ⟨memory, db, hrun, hconf, hdated, hfind⟩ := ih hsplit fun s' hs' =>
      hearly s' (List.mem_append_left _ hs')
    obtain ⟨memory', hready, hconf', hdated', -⟩ := ready_tiersOf hconf hdated s
    obtain ⟨memory'', disk', hstep, hmoved⟩ := moved_stepAt memory' (some db) s.now s.call
    have hput : HasPut (timed (before ++ p :: between)) key value encoded p.now e :=
      hasPut_of_mem (by simp) hputs
    have hother : putKey s.call ≠ some key := by
      have hsplit' : ops = before ++ p :: (between ++ s :: after) := by simp [hsplit]
      exact hops.fresh hsplit' hputs s (by simp)
    obtain ⟨db', rfl, hfind'⟩ := find_moved hdated' hops hsplit hfind hput
      (hearly s (List.mem_append_right _ (List.mem_singleton.mpr rfl))) hother rfl hmoved
    rw [hassoc]
    refine ⟨memory'', db', ?_, hconf'.moved (hops.calls s (by simp [hsplit])) hmoved,
      hdated'.moved hops hsplit rfl hmoved, hfind'⟩
    rw [runOps_concat, hrun, hready, hstep]

end

/-! ## What a `Get` returns -/

section

variable {size : UInt64} {ops before after : List (Op Obj)} {op : Op Obj}
  {memory : Option (MemoryTier Obj)} {disk : Option Database} {db : Database} {key : List Char}
  {decoder : List Char → Option (Held Obj)}

/-- The disk tier answers with a text whose deadline the clock has not reached. -/
theorem Dated.diskAnswer_iff (h : Dated ops (timed before) memory (some db))
    (hops : PutsAndGets size ops) (hsplit : ops = before ++ op :: after)
    (hreads : reads op.call = some (key, decoder)) :
    (∃ value, diskAnswer op.now (itemOn db key) decoder = .ok (some value)) ↔
      ∃ encoded value t e, db.find key = some encoded ∧
        HasPut (timed before) key value encoded t e ∧ (e = timeMax ∨ op.now < e + t) := by
  have hop : op ∈ ops := by simp [hsplit]
  unfold diskAnswer DiskItem.shows
  cases hfind : db.find key with
  | none =>
    refine iff_of_false ?_ ?_
    · rintro ⟨value, hvalue⟩
      cases hexpires : (itemOn db key).expires with
      | error fault => simp [hexpires, Except.map] at hvalue
      | ok expiry => simp [hexpires, Except.map, hfind] at hvalue
    · rintro ⟨_, _, _, _, hsome, -⟩
      cases hsome
  | some encoded =>
    obtain ⟨value, t, e, hput, hexpiry, -⟩ :=
      h.text db rfl op hop key (usedKey_of_reads hreads) encoded hfind
    obtain ⟨he, hrange⟩ := hops.expiries _ _ _ _ _ (hput.of_before hsplit)
    obtain ⟨decoded, hdecoded⟩ := Option.isSome_iff_exists.mp
      (hops.decoders key decoder value encoded t e
        (mem_decodersOf (List.mem_map_of_mem (mem_timed hop)) hreads) (hput.of_before hsplit))
    have hexpires : (itemOn db key).expires =
        .ok (if e < timeMax then e + t else timeMax + 1) := by
      unfold DiskItem.expires itemOn
      rw [hexpiry, expiryText]
      by_cases hlt : e < timeMax
      · rw [if_pos hlt, if_pos hlt]
        exact stol_decimal (hrange hlt).1 (hrange hlt).2
      · rw [if_neg hlt, if_neg hlt]
    have hlive : ¬ (if e < timeMax then e + t else timeMax + 1) ≤ op.now ↔
        (e = timeMax ∨ op.now < e + t) := by
      have hnow := (hops.times op hop).2
      split
      · omega
      · omega
    constructor
    · rintro ⟨_, hvalue⟩
      refine ⟨encoded, value, t, e, rfl, hput, hlive.mp fun hexpired => ?_⟩
      simp [hexpires, Except.map, hexpired] at hvalue
    · rintro ⟨encoded', _, t', e', hsame, hput', hcond⟩
      obtain rfl := Option.some.inj hsame
      obtain ⟨-, rfl, rfl⟩ := hops.unique (hput.of_before hsplit) (hput'.of_before hsplit)
      refine ⟨decoded, ?_⟩
      simp [hexpires, Except.map, hlive.mpr hcond, hfind, hdecoded]

/-- A `Get` returns a value iff the memory tier has an item whose deadline is not over, or the
disk tier a text whose deadline the clock has not reached. -/
theorem Dated.returns_iff (h : Dated ops (timed before) memory disk)
    (hops : PutsAndGets size ops) (hsplit : ops = before ++ op :: after)
    (hreads : reads op.call = some (key, decoder)) :
    (∃ value, ((tiersOf memory disk).get (atTime op.now) key decoder).2.1 = .ok (some value)) ↔
      (∃ tuple, heldIn memory key = some tuple ∧ op.now ≤ tuple.expiry) ∨
        ∃ db ∈ disk, ∃ encoded value t e, db.find key = some encoded ∧
          HasPut (timed before) key value encoded t e ∧ (e = timeMax ∨ op.now < e + t) := by
  have hop : op ∈ ops := by simp [hsplit]
  have hresult := get_result memory (disk.map fun db => ⟨some db, fun _ => true⟩)
    (hops.times op hop).2 key decoder
  rw [tiersOf, hresult]
  by_cases hanswer : ∃ tuple, heldIn memory key = some tuple ∧ op.now ≤ tuple.expiry
  · refine iff_of_true ?_ (Or.inl hanswer)
    obtain ⟨tuple, hheld, hlive⟩ := hanswer
    obtain ⟨_, _, _, _, -, -, -, hitem, -⟩ := h.held key tuple hheld
    obtain ⟨item, hitem⟩ := Option.isSome_iff_exists.mp hitem
    exact ⟨item, by simp [answer, hheld, hlive, hitem]⟩
  · have hsilent : answer op.now memory key = none := by
      unfold answer
      cases hheld : heldIn memory key with
      | none => rfl
      | some tuple =>
        rw [Option.bind_some, if_neg]
        exact fun hlive => hanswer ⟨tuple, hheld, hlive⟩
    rw [hsilent, or_iff_right hanswer]
    cases disk with
    | none => simp [diskAnswer, diskItem, DiskItem.shows, DiskItem.expires, Except.map]
    | some db =>
      simp only [Option.mem_some_iff, exists_eq_left']
      exact h.diskAnswer_iff hops hsplit hreads

end

/-- The operation that follows a run is a `Get` and returns a value. -/
def Finds (memorySize : Option UInt64) (withDisk : Bool) (before : List (Op Obj)) (op : Op Obj) :
    Prop :=
  ∃ key decoder value, reads op.call = some (key, decoder) ∧
    ((ready memorySize withDisk (runOps memorySize withDisk before) op).get (atTime op.now) key
      decoder).2.1 = .ok (some value)

/-- The clock does not fall back behind a deadline: a `Get` of a key is made after its deadline if
an operation since its `Put` was, and not before its deadline if one of them was not. -/
def ClockKeepsDeadlines (ops : List (Op Obj)) : Prop :=
  ∀ (before : List (Op Obj)) (p : Op Obj) (between : List (Op Obj)) (op : Op Obj)
    (after : List (Op Obj)), ops = (before ++ p :: between) ++ op :: after →
    ∀ key value encoded e decoder, puts p.call = some (key, value, encoded, e) →
      reads op.call = some (key, decoder) → e < timeMax → ∀ s ∈ p :: between,
        (e + p.now ≤ s.now → e + p.now ≤ op.now) ∧ (e + p.now < s.now → e + p.now < op.now)

/-- No `Get` is made in the second in which the deadline of its key ends. -/
def NoneReadAtDeadline (ops : List (Op Obj)) : Prop :=
  ∀ (before : List (Op Obj)) (p : Op Obj) (between : List (Op Obj)) (op : Op Obj)
    (after : List (Op Obj)), ops = (before ++ p :: between) ++ op :: after →
    ∀ key value encoded e decoder, puts p.call = some (key, value, encoded, e) →
      reads op.call = some (key, decoder) → 0 < e → e < timeMax → op.now ≠ e + p.now

/-- A clock that does not go back. -/
theorem clockKeepsDeadlines_of_le {ops : List (Op Obj)}
    (h : (ops.map Op.now).Pairwise (· ≤ ·)) : ClockKeepsDeadlines ops := by
  intro before p between op after hsplit _ _ _ e _ _ _ _ s hs
  rw [hsplit, List.map_append, List.pairwise_append] at h
  have hle : s.now ≤ op.now := by
    apply h.2.2 s.now _ op.now (by simp)
    exact List.mem_map_of_mem (List.mem_append_right _ hs)
  constructor
  · exact fun hreached => hreached.trans hle
  · exact fun hpassed => hpassed.trans_le hle

section

variable {size : UInt64} {ops before between after : List (Op Obj)} {p op : Op Obj}
  {memorySize : Option UInt64} {withDisk : Bool} {key encoded : List Char}
  {value : Option (Held Obj)} {decoder : List Char → Option (Held Obj)} {e : ℤ}

/-- The state in which the call of an operation is made. -/
theorem exists_ready (memorySize : Option UInt64) (withDisk : Bool) (hops : PutsAndGets size ops)
    (hsplit : ops = before ++ op :: after) :
    ∃ memory disk, ready memorySize withDisk (runOps memorySize withDisk before) op =
        tiersOf memory disk ∧ Configured memorySize withDisk memory disk ∧
      Dated ops (timed before) memory disk := by
  obtain ⟨memory, disk, hrun, hconf, hdated⟩ := dated_runOps memorySize withDisk hops hsplit
  obtain ⟨memory', hready, hconf', hdated', -⟩ := ready_tiersOf hconf hdated op
  exact ⟨memory', disk, by rw [hrun, hready], hconf', hdated'⟩

/-- What is returned was put, by the tiers' own rules: a memory tier has accepted it and its
deadline is not over, and without one the clock has not reached its deadline. -/
theorem Finds.exists_put (h : Finds memorySize withDisk before op) (hops : PutsAndGets size ops)
    (hsplit : ops = before ++ op :: after) (hreads : reads op.call = some (key, decoder)) :
    ∃ value encoded t e, HasPut (timed before) key value encoded t e ∧
      op.now ≤ InMemoryCache.deadline t e ∧ (memorySize.isSome → Accepts e) ∧
      (memorySize = none → e = timeMax ∨ op.now < e + t) := by
  obtain ⟨key', decoder', returned, hreads', hget⟩ := h
  obtain ⟨rfl, rfl⟩ : key = key' ∧ decoder = decoder' := by simpa [hreads] using hreads'
  obtain ⟨memory, disk, hready, hconf, hdated⟩ := exists_ready memorySize withDisk hops hsplit
  have hsome : memory.isSome = memorySize.isSome := by
    rw [← hconf.memory, Option.isSome_map]
  rw [hready] at hget
  rcases (hdated.returns_iff hops hsplit hreads).mp ⟨returned, hget⟩ with
    ⟨tuple, hheld, hlive⟩ | ⟨db, hdb, encoded, value, t, e, hfind, hput, hlive⟩
  · obtain ⟨value, encoded, t, e, hput, haccepts, hexpiry, -⟩ := hdated.held key tuple hheld
    refine ⟨value, encoded, t, e, hput, hexpiry ▸ hlive, fun _ => haccepts, fun hnone => ?_⟩
    rw [hnone] at hsome
    have hmemory : memory = none := by simpa using hsome
    rw [hmemory] at hheld
    cases hheld
  · refine ⟨value, encoded, t, e, hput, ?_, ?_, fun _ => hlive⟩
    · have hnow := (hops.times op (by simp [hsplit])).2
      unfold InMemoryCache.deadline
      split
      · rename_i hexpires
        have hne : e ≠ timeMax := by simpa [hasExpiry] using hexpires
        exact (hlive.resolve_left hne).le
      · exact hnow
    · intro hmemory
      obtain ⟨_, t', e', hput', -, haccepts⟩ :=
        hdated.text db hdb op (by simp [hsplit]) key (usedKey_of_reads hreads) encoded hfind
      obtain ⟨-, rfl, rfl⟩ := hops.unique (hput.of_before hsplit) (hput'.of_before hsplit)
      exact haccepts (hsome ▸ hmemory)

/-- A memory tier alone returns an item that it has accepted up to its deadline. -/
theorem finds_of_memory (hops : PutsAndGets size ops) (hclock : ClockKeepsDeadlines ops)
    (hsplit : ops = (before ++ p :: between) ++ op :: after)
    (hputs : puts p.call = some (key, value, encoded, e))
    (hreads : reads op.call = some (key, decoder)) (haccepts : Accepts e)
    (hlive : op.now ≤ InMemoryCache.deadline p.now e) :
    Finds (some size) false (before ++ p :: between) op := by
  have hlate : ∀ s ∈ between, s.now ≤ InMemoryCache.deadline p.now e := by
    intro s hs
    unfold InMemoryCache.deadline at hlive ⊢
    split
    · rename_i hexpires
      rw [if_pos hexpires] at hlive
      have hput : HasPut (timed ops) key value encoded p.now e :=
        hasPut_of_mem (by simp [hsplit]) hputs
      have hlt : e < timeMax := by
        apply lt_of_le_of_ne (hops.expiries _ _ _ _ _ hput).1
        simpa [hasExpiry] using hexpires
      have hkeeps := (hclock before p between op after hsplit key value encoded e decoder hputs
        hreads hlt s (List.mem_cons_of_mem p hs)).2
      by_contra hpassed
      exact absurd (hkeeps (not_le.mp hpassed)) (not_lt.mpr hlive)
    · exact (hops.times s (by simp [hsplit, hs])).2
  obtain ⟨memory, tuple, hrun, hconf, hdated, hheld⟩ :=
    heldIn_runOps hops hsplit hputs haccepts hlate
  obtain ⟨value', encoded', t, e', hput', -, hexpiry, -⟩ := hdated.held key tuple hheld
  have hput : HasPut (timed ops) key value encoded p.now e := hasPut_of_mem (by simp [hsplit]) hputs
  obtain ⟨-, rfl, rfl⟩ := hops.unique hput (hput'.of_before hsplit)
  obtain ⟨returned, hget⟩ := (hdated.returns_iff hops hsplit hreads).mpr
    (Or.inl ⟨tuple, hheld, hexpiry ▸ hlive⟩)
  refine ⟨key, decoder, returned, hreads, ?_⟩
  rw [hrun]
  exact hget

/-- A disk tier returns a value that has been written as long as the clock has not reached its
deadline, with a memory tier before it or without one. -/
theorem finds_of_disk (hsize : ∀ s ∈ memorySize, s = size) (hops : PutsAndGets size ops)
    (hclock : ClockKeepsDeadlines ops) (hsplit : ops = (before ++ p :: between) ++ op :: after)
    (hputs : puts p.call = some (key, value, encoded, e))
    (hreads : reads op.call = some (key, decoder)) (haccepts : memorySize.isSome → Accepts e)
    (hlive : e = timeMax ∨ op.now < e + p.now) :
    Finds memorySize true (before ++ p :: between) op := by
  have hearly : ∀ s ∈ between, e < timeMax → s.now < e + p.now := by
    intro s hs hlt
    have hkeeps := (hclock before p between op after hsplit key value encoded e decoder hputs
      hreads hlt s (List.mem_cons_of_mem p hs)).1
    by_contra hreached
    exact absurd (hkeeps (not_lt.mp hreached)) (not_le.mpr (hlive.resolve_left hlt.ne))
  obtain ⟨memory, db, hrun, hconf, hdated, hfind⟩ :=
    find_runOps hsize hops hsplit hputs haccepts hearly
  obtain ⟨memory', hready, -, hdated', -⟩ := ready_tiersOf hconf hdated op
  have hput : HasPut (timed (before ++ p :: between)) key value encoded p.now e :=
    hasPut_of_mem (by simp) hputs
  obtain ⟨returned, hget⟩ := (hdated'.returns_iff hops hsplit hreads).mpr
    (Or.inr ⟨db, rfl, encoded, value, p.now, e, hfind, hput, hlive⟩)
  refine ⟨key, decoder, returned, hreads, ?_⟩
  rw [hrun, hready]
  exact hget

/-- The `Put` that a key has before a `Get`, as an operation of the run. -/
theorem exists_split (hsplit : ops = before ++ op :: after) {t : ℤ}
    (hput : HasPut (timed before) key value encoded t e) :
    ∃ start p between, before = start ++ p :: between ∧
      ops = (start ++ p :: between) ++ op :: after ∧ p.now = t ∧
      puts p.call = some (key, value, encoded, e) := by
  obtain ⟨p, hp, hnow, hputs⟩ := exists_op_of_hasPut hput
  obtain ⟨start, between, rfl⟩ := List.append_of_mem hp
  exact ⟨start, p, between, rfl, hsplit, hnow, hputs⟩

/-- Away from the second in which it ends, a deadline is the same for both tiers. -/
theorem lives_iff (hops : PutsAndGets size ops) (hclock : ClockKeepsDeadlines ops)
    (hnever : NoneReadAtDeadline ops) (hsplit : ops = (before ++ p :: between) ++ op :: after)
    (hputs : puts p.call = some (key, value, encoded, e))
    (hreads : reads op.call = some (key, decoder)) :
    Accepts e ∧ op.now ≤ InMemoryCache.deadline p.now e ↔ e = timeMax ∨ op.now < e + p.now := by
  have hput : HasPut (timed ops) key value encoded p.now e := hasPut_of_mem (by simp [hsplit]) hputs
  have hnow := (hops.times op (by simp [hsplit])).2
  rcases (hops.expiries _ _ _ _ _ hput).1.lt_or_eq with hlt | rfl
  · have hexpires : hasExpiry e = true := by simpa [hasExpiry] using hlt.ne
    have hold := (hclock before p between op after hsplit key value encoded e decoder hputs hreads
      hlt p List.mem_cons_self).1
    have hnot := hnever before p between op after hsplit key value encoded e decoder hputs hreads
    rw [InMemoryCache.deadline, if_pos hexpires, Accepts, or_iff_right hlt.ne]
    constructor
    · rintro ⟨hpos, hlive⟩
      exact lt_of_le_of_ne hlive (hnot (hpos hexpires) hlt)
    · intro hlive
      refine ⟨fun _ => ?_, hlive.le⟩
      by_contra hpos
      have hreached := hold (by omega)
      omega
  · simp [InMemoryCache.deadline, hasExpiry, Accepts, hnow]

/-- If no `Get` is made in the last second of a deadline, what one cache returns all return. -/
theorem Finds.all (h : Finds memorySize withDisk before op) (hops : PutsAndGets size ops)
    (hclock : ClockKeepsDeadlines ops) (hnever : NoneReadAtDeadline ops)
    (hsplit : ops = before ++ op :: after) : Finds (some size) false before op ∧
      Finds none true before op ∧ Finds (some size) true before op := by
  have hsome : ∀ s ∈ some size, s = size := fun s hs => (Option.some.inj hs).symm
  obtain ⟨key, decoder, -, hreads, -⟩ := id h
  obtain ⟨value, encoded, t, e, hput, hlate, haccepts, hearly⟩ := h.exists_put hops hsplit hreads
  obtain ⟨start, p, between, rfl, hsplit', rfl, hputs⟩ := exists_split hsplit hput
  have hlives := lives_iff hops hclock hnever hsplit' hputs hreads
  have hlive : e = timeMax ∨ op.now < e + p.now := by
    cases memorySize with
    | none => exact hearly rfl
    | some s => exact hlives.mp ⟨haccepts rfl, hlate⟩
  obtain ⟨haccepted, hlate⟩ := hlives.mpr hlive
  refine ⟨finds_of_memory hops hclock hsplit' hputs hreads haccepted hlate, ?_, ?_⟩
  · apply finds_of_disk _ hops hclock hsplit' hputs hreads _ hlive
    · intro s hs
      cases hs
    · intro hs
      cases hs
  · exact finds_of_disk hsome hops hclock hsplit' hputs hreads (fun _ => haccepted) hlive

/-- **All tiers expire a value at the same time**, iff no `Get` is made in the second in which the
deadline of its key ends. -/
theorem tiers_expire_together_iff (hops : PutsAndGets size ops) (hclock : ClockKeepsDeadlines ops) :
    (∀ before op after, ops = before ++ op :: after →
        (Finds (some size) false before op ↔ Finds none true before op) ∧
        (Finds (some size) false before op ↔ Finds (some size) true before op)) ↔
      NoneReadAtDeadline ops := by
  constructor
  · intro htogether before p between op after hsplit key value encoded e decoder hputs hreads hpos
      hlt hnow
    have hdeadline : InMemoryCache.deadline p.now e = e + p.now := by
      simp [InMemoryCache.deadline, hasExpiry, hlt.ne]
    -- the memory tier still returns it, and the disk tier would have to
    have hfinds : Finds none true (before ++ p :: between) op := by
      apply (htogether _ op after hsplit).1.mp
      exact finds_of_memory hops hclock hsplit hputs hreads (fun _ => hpos)
        (by rw [hdeadline, hnow])
    obtain ⟨value', encoded', t, e', hput', -, -, hlive⟩ := hfinds.exists_put hops hsplit hreads
    have hput : HasPut (timed ops) key value encoded p.now e :=
      hasPut_of_mem (by simp [hsplit]) hputs
    obtain ⟨-, rfl, rfl⟩ := hops.unique hput (hput'.of_before hsplit)
    cases hlive rfl with
    | inl hmax => exact hlt.ne hmax
    | inr hearly => exact hearly.ne hnow
  · intro hnever before op after hsplit
    refine ⟨⟨fun h => ?_, fun h => ?_⟩, ⟨fun h => ?_, fun h => ?_⟩⟩
    · exact (h.all hops hclock hnever hsplit).2.1
    · exact (h.all hops hclock hnever hsplit).1
    · exact (h.all hops hclock hnever hsplit).2.2
    · exact (h.all hops hclock hnever hsplit).1

end

/-! ## The last second -/

/-- A `Put` for five seconds and a `Get`. -/
def putThenGet (now : ℤ) : List (Op Unit) :=
  [⟨false, 0, .putData ['k'] ['1'] 5⟩, ⟨false, now, .getData ['k']⟩]

theorem putsAndGets_putThenGet {now : ℤ} (hlow : 0 ≤ now) (hhigh : now ≤ timeMax) :
    PutsAndGets 1 (putThenGet now) := by
  have hputs : ∀ {key encoded : List Char} {value : Option (Held Unit)} {t e : ℤ},
      HasPut (timed (putThenGet now)) key value encoded t e →
        some (.data ['1']) = value ∧ 0 = t ∧ 5 = e := by
    intro key encoded value t e hput
    obtain ⟨op, hop, rfl, hputs⟩ := exists_op_of_hasPut hput
    simp only [putThenGet, List.mem_cons, List.not_mem_nil, or_false] at hop
    rcases hop with rfl | rfl
    · simp only [puts, Option.some.injEq, Prod.mk.injEq] at hputs
      exact ⟨hputs.2.1, rfl, hputs.2.2.2⟩
    · cases hputs
  have hused : ∀ op ∈ putThenGet now, usedKey op.call = some ['k'] := by
    intro op hop
    simp only [putThenGet, List.mem_cons, List.not_mem_nil, or_false] at hop
    rcases hop with rfl | rfl
    · rfl
    · rfl
  constructor
  · intro op hop
    rw [hused op hop]
    rfl
  · simp [putThenGet, putKey, puts]
  · simpa [putThenGet, timeMax] using And.intro hlow hhigh
  · intro key value encoded t e hput
    obtain ⟨rfl, -, -⟩ := hputs hput
    rfl
  · intro key value encoded t e hput
    obtain ⟨-, rfl, rfl⟩ := hputs hput
    decide
  · intro key decoder value encoded t e hdecoder _
    simp only [decodersIn, decodersOf, timed, putThenGet, List.mem_filterMap] at hdecoder
    obtain ⟨call, hcall, hdecoder⟩ := hdecoder
    simp at hcall
    rcases hcall with rfl | rfl
    · cases hdecoder
    · simp only [reads, Option.bind_some, Option.ite_none_right_eq_some] at hdecoder
      obtain ⟨-, hsome⟩ := hdecoder
      obtain rfl := Option.some.inj hsome
      rfl
  · intro op hop op' hop' key hkey other hother
    rw [hused op hop] at hkey
    rw [hused op' hop'] at hother
    obtain rfl := Option.some.inj hkey
    obtain rfl := Option.some.inj hother
    decide
  · show (itemCost Unit 1).toNat + 0 ≤ (1 : UInt64).toNat
    decide

theorem clockKeepsDeadlines_putThenGet {now : ℤ} (hlow : 0 ≤ now) :
    ClockKeepsDeadlines (putThenGet now) := by
  apply clockKeepsDeadlines_of_le
  simpa [putThenGet] using hlow

/-- Five seconds after a `Put` for five seconds, the memory tier returns the value and the disk
tier does not. -/
theorem expires_a_second_apart : PutsAndGets 1 (putThenGet 5) ∧
    ((putThenGet 5).map Op.now).Pairwise (· ≤ ·) ∧
    ∃ before op, putThenGet 5 = before ++ [op] ∧
      Finds (some 1) false before op ∧ ¬ Finds none true before op := by
  have hops : PutsAndGets 1 (putThenGet 5) :=
    putsAndGets_putThenGet (by decide) (by decide)
  have hsplit : putThenGet 5 = ([] ++ ⟨false, 0, .putData ['k'] ['1'] 5⟩ :: []) ++
    ⟨false, 5, .getData ['k']⟩ :: [] := rfl
  refine ⟨hops, by simp [putThenGet], _, _, hsplit, ?_, ?_⟩
  · exact finds_of_memory hops (clockKeepsDeadlines_putThenGet (by decide)) hsplit rfl rfl
      (by decide) (by decide)
  · intro hfinds
    obtain ⟨value, encoded, t, e, hput, -, -, hlive⟩ := hfinds.exists_put hops hsplit rfl
    have hput' : HasPut (timed ([] ++ (⟨false, 0, .putData ['k'] ['1'] 5⟩ : Op Unit) :: []))
        ['k'] (some (.data ['1'])) ['1'] 0 5 := ⟨_, List.mem_cons_self, rfl⟩
    obtain ⟨-, rfl, rfl⟩ := hops.unique (hput'.of_before hsplit) (hput.of_before hsplit)
    exact absurd (hlive rfl) (by decide)

theorem tiers_expire_together_before_the_deadline : NoneReadAtDeadline (putThenGet 4) ∧
    ∀ before op after, putThenGet 4 = before ++ op :: after →
      (Finds (some 1) false before op ↔ Finds none true before op) ∧
      (Finds (some 1) false before op ↔ Finds (some 1) true before op) := by
  have hnever : NoneReadAtDeadline (putThenGet 4) := by
    intro before p between op after hsplit key value encoded e decoder hputs hreads _ _
    have hop : op ∈ putThenGet 4 := by simp [hsplit]
    have hp : p ∈ putThenGet 4 := by simp [hsplit]
    simp only [putThenGet, List.mem_cons, List.not_mem_nil, or_false] at hop hp
    rcases hop with rfl | rfl
    · cases hreads
    · rcases hp with rfl | rfl
      · simp only [puts, Option.some.injEq, Prod.mk.injEq] at hputs
        obtain ⟨-, -, -, rfl⟩ := hputs
        decide
      · cases hputs
  refine ⟨hnever, ?_⟩
  apply (tiers_expire_together_iff (putsAndGets_putThenGet (by decide) (by decide))
    (clockKeepsDeadlines_putThenGet (by decide))).mpr
  exact hnever

end OlpEdgeSdk.Analysis.DefaultCache

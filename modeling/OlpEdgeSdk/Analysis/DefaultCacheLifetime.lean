import OlpEdgeSdk.Analysis.DefaultCacheDeadlines

/-!
# How long a value is returned

A value should be returned until its own deadline, and for ever without one. Its deadline is an
entry of its own on disk. A `Put` without expiry writes no such entry and removes none, and
`Remove` removes none either, so the deadline of an earlier value can be left there for a later
one: `old_deadline_ends_new_value`. `get_until_deadline` is the result for every run in which a
`Put` without expiry finds no such entry.
-/

set_option autoImplicit false

namespace OlpEdgeSdk.Analysis.DefaultCache

open OlpEdgeSdk.Model OlpEdgeSdk.Base OlpEdgeSdk.Interface
open OlpEdgeSdk.Model.DefaultCache OlpEdgeSdk.Analysis.InMemoryCache

variable {Obj : Type}

/-! ## The value in place -/

/-- The disk lets a key be read up to a time: it has no deadline that passes before. -/
def Alive (db : Database) (key : List Char) (last : ℤ) : Prop :=
  ∀ now ≤ last, ∃ left, timeLeft db key now = .ok left ∧ 0 < left

/-- The text of a value is on disk up to a time, and what the memory tier holds for its key, if
anything, is one of the values it may be read as. -/
structure Keeps (key encoded : List Char) (values : Option (Held Obj) → Prop) (last : ℤ)
    (memory : Option (MemoryTier Obj)) (disk : Option Database) : Prop where
  onDisk : ∃ db, disk = some db ∧ db.find key = some encoded ∧ Alive db key last
  inMemory : ∀ m ∈ memory, ∀ tuple, held m key = some tuple → values tuple.item

theorem alive_of_none {db : Database} {key : List Char}
    (h : db.find (createExpiryKey key) = none) (last : ℤ) : Alive db key last :=
  fun now _ => ⟨timeMax, timeLeft_of_none h now, by decide⟩

theorem Alive.congr {db db' : Database} {key : List Char} {last : ℤ} (h : Alive db key last)
    (hsame : db'.find (createExpiryKey key) = db.find (createExpiryKey key)) :
    Alive db' key last := by
  intro now hnow
  obtain ⟨left, hleft, hpos⟩ := h now hnow
  refine ⟨left, ?_, hpos⟩
  rw [← hleft]
  unfold timeLeft
  rw [hsame]

section

variable {call : Call Obj} {now last : ℤ} {memory memory' : Option (MemoryTier Obj)}
  {disk disk' : Option Database} {key encoded : List Char} {values : Option (Held Obj) → Prop}

theorem Keeps.memory_sub (h : Keeps key encoded values last memory disk)
    (hsub : ∀ m' ∈ memory', ∃ m ∈ memory, ∀ tuple, held m' key = some tuple →
      held m key = some tuple) : Keeps key encoded values last memory' disk where
  onDisk := h.onDisk
  inMemory m' hm' tuple hheld := by
    obtain ⟨m, hm, hkeys⟩ := hsub m' hm'
    exact h.inMemory m hm tuple (hkeys tuple hheld)

theorem Keeps.disk_frame (h : Keeps key encoded values last memory disk)
    (f : Database → Database)
    (hf : ∀ db, db.find key = some encoded → (f db).find key = some encoded)
    (hexpiry : ∀ db, Alive db key last → Alive (f db) key last) :
    Keeps key encoded values last memory (disk.map f) where
  onDisk := by
    obtain ⟨db, rfl, hfind, halive⟩ := h.onDisk
    exact ⟨f db, rfl, hf db hfind, hexpiry db halive⟩
  inMemory := h.inMemory

theorem Keeps.lookedIn (h : Keeps key encoded values last memory disk) (other : List Char) :
    Keeps key encoded values last (lookedIn now memory other) disk := by
  apply h.memory_sub
  intro m' hm'
  obtain ⟨m, hm, rfl⟩ := Option.mem_map.mp hm'
  exact ⟨m, hm, fun tuple hheld => held_of_held_get hheld⟩

/-- A `Put` into the memory tier is of another key, or brings one of the values. -/
theorem Keeps.putIn (h : Keeps key encoded values last memory disk) {other : List Char}
    {item : Option (Held Obj)} {e : ℤ} {size : ℕ} (hitem : other = key → values item) :
    Keeps key encoded values last (putIn now memory other item e size) disk where
  onDisk := h.onDisk
  inMemory m' hm' tuple hheld := by
    obtain ⟨m, hm, rfl⟩ := Option.mem_map.mp hm'
    rcases held_put_cases hheld with ⟨hkey, rfl⟩ | hheld
    · exact hitem hkey
    · exact h.inMemory m hm tuple hheld

/-- A change of the disk that leaves the two entries of the key alone. -/
theorem Keeps.disk_same (h : Keeps key encoded values last memory disk)
    (f : Database → Database) (hkey : ∀ db, (f db).find key = db.find key)
    (hexpiry : ∀ db, (f db).find (createExpiryKey key) = db.find (createExpiryKey key)) :
    Keeps key encoded values last memory (disk.map f) :=
  h.disk_frame f (fun db hfind => (hkey db).trans hfind) fun db halive =>
    halive.congr (hexpiry db)

theorem Keeps.read (h : Keeps key encoded values last memory disk) (hkey : ¬ IsExpiryKey key)
    (hnow : now ≤ last) {other : List Char} {decoder : List Char → Option (Held Obj)}
    (hother : ¬ IsExpiryKey other) (hreads : other = key → values (decoder encoded))
    {result : Except Fault (Option (Held Obj))}
    (hgot : Got now memory disk other decoder memory' disk' result) :
    Keeps key encoded values last memory' disk' := by
  cases hgot with
  | found => exact h.lookedIn other
  | missed => exact h.lookedIn other
  | faulted => exact h.lookedIn other
  | purged hdisk hleft hexpired =>
    obtain ⟨db, hdb, -, halive⟩ := h.onDisk
    obtain rfl := Option.some.inj (hdisk.symm.trans hdb)
    subst hdisk
    -- the key itself is not purged: its deadline has not passed
    have hne : key ≠ other := by
      rintro rfl
      obtain ⟨left, hleft', hpos⟩ := halive now hnow
      obtain rfl := Except.ok.inj (hleft.symm.trans hleft')
      omega
    refine (h.lookedIn other).disk_same (purgedDisk other) (fun db => ?_) fun db => ?_
    · rw [purgedDisk, SortedMap.find_erase, if_neg (ne_createExpiryKey hkey other),
        SortedMap.find_erase, if_neg hne]
    · rw [purgedDisk, SortedMap.find_erase, if_neg (createExpiryKey_ne hne),
        SortedMap.find_erase, if_neg (ne_createExpiryKey hother key).symm]
  | promoted hdisk hleft hlive hfind =>
    refine (h.lookedIn other).putIn fun heq => ?_
    obtain ⟨db, hdb, hfind', -⟩ := h.onDisk
    obtain rfl := Option.some.inj (hdisk.symm.trans hdb)
    subst heq
    rw [Option.some.inj (hfind.symm.trans hfind')]
    exact hreads rfl

/-- **Step.** A call that does not touch the key, made before the deadline, keeps the value in
place. -/
theorem Keeps.moved (h : Keeps key encoded values last memory disk) (hkey : ¬ IsExpiryKey key)
    (hcall : Ordinary call) (huntouched : ¬ Touches key call) (hnow : now ≤ last)
    (hreads : ∀ decoder, reads call = some (key, decoder) → values (decoder encoded))
    (hmoved : Moved now memory disk call memory' disk') :
    Keeps key encoded values last memory' disk' := by
  cases hmoved with
  | written hputs htaken =>
    rename_i other _ _ _
    obtain ⟨hother, -⟩ := hcall.of_puts hputs
    have hne : key ≠ other := fun heq => huntouched (heq ▸ touches_of_puts hputs)
    refine Keeps.disk_same (h.putIn fun heq => absurd heq.symm hne) _ (fun db => ?_)
      fun db => ?_
    · exact find_written_other db hne (ne_createExpiryKey hkey other)
    · exact find_written_other db (ne_createExpiryKey hother key).symm (createExpiryKey_ne hne)
  | refused hputs =>
    exact h.putIn fun heq => absurd (heq ▸ touches_of_puts hputs) huntouched
  | read hread hgot =>
    exact h.read hkey hnow (hcall.of_reads hread) (fun heq => hreads _ (heq ▸ hread)) hgot
  | removed other =>
    have hne : key ≠ other := fun heq => huntouched heq.symm
    have hkept : Keeps key encoded values last
        (memory.map (InMemoryCache.remove · other)) disk := by
      apply h.memory_sub
      intro m' hm'
      obtain ⟨m, hm, rfl⟩ := Option.mem_map.mp hm'
      refine ⟨m, hm, fun tuple hheld => ?_⟩
      rwa [held_remove, if_neg hne] at hheld
    refine hkept.disk_same _ (fun db => ?_) fun db => ?_
    · rw [SortedMap.find_erase, if_neg hne]
    · rw [SortedMap.find_erase, if_neg (ne_createExpiryKey hcall key).symm]
  | prefixRemoved keyPrefix =>
    have hkept : Keeps key encoded values last
        (memory.map (InMemoryCache.removeKeysWithPrefix · keyPrefix)) disk := by
      apply h.memory_sub
      intro m' hm'
      obtain ⟨m, hm, rfl⟩ := Option.mem_map.mp hm'
      refine ⟨m, hm, fun tuple hheld => ?_⟩
      have hpre : ¬ key.take keyPrefix.length = keyPrefix :=
        fun heq => huntouched (List.prefix_iff_eq_take.mpr heq.symm)
      rwa [held_removeKeysWithPrefix, if_neg hpre] at hheld
    -- the deadline may go without the value, which then lasts longer
    refine hkept.disk_frame _ (fun db hfind => ?_) fun db halive => ?_
    · rcases find_eraseAll_scan db keyPrefix key with heq | ⟨hpre, -⟩
      · exact heq.trans hfind
      · exact absurd hpre huntouched
    · rcases find_eraseAll_scan db keyPrefix (createExpiryKey key) with heq | ⟨-, hnone⟩
      · exact halive.congr heq
      · exact alive_of_none hnone last

end

/-! ## Runs -/

/-- **Run.** Calls that do not touch the key, made before the deadline, keep the value in
place. -/
theorem keeps_runAt {key encoded : List Char} {values : Option (Held Obj) → Prop} {last : ℤ}
    {memory : Option (MemoryTier Obj)} {disk : Option Database} {calls : List (ℤ × Call Obj)}
    (hkey : ¬ IsExpiryKey key) (hcalls : ∀ timed ∈ calls, Ordinary timed.2)
    (huntouched : ∀ timed ∈ calls, ¬ Touches key timed.2)
    (hlast : ∀ timed ∈ calls, timed.1 ≤ last)
    (hreads : ∀ decoder ∈ decodersIn key calls, values (decoder encoded))
    (h : Keeps key encoded values last memory disk) :
    ∃ memory' disk', runAt (tiersOf memory disk) calls = tiersOf memory' disk' ∧
      Keeps key encoded values last memory' disk' := by
  induction calls generalizing memory disk with
  | nil => exact ⟨memory, disk, rfl, h⟩
  | cons timed calls ih =>
    obtain ⟨now, call⟩ := timed
    obtain ⟨memory', disk', hstep, hmoved⟩ := moved_stepAt memory disk now call
    have hkept := h.moved hkey (hcalls _ List.mem_cons_self) (huntouched _ List.mem_cons_self)
      (hlast _ List.mem_cons_self)
      (fun decoder hread => hreads decoder (mem_decodersOf List.mem_cons_self hread)) hmoved
    have hrest := ih (fun timed hmem => hcalls timed (List.mem_cons_of_mem _ hmem))
      (fun timed hmem => huntouched timed (List.mem_cons_of_mem _ hmem))
      (fun timed hmem => hlast timed (List.mem_cons_of_mem _ hmem))
      (fun decoder hmem => hreads decoder ?_) hkept
    · rwa [← hstep] at hrest
    · obtain ⟨call', hmem', hread⟩ := List.mem_filterMap.mp hmem
      exact List.mem_filterMap.mpr ⟨call', List.mem_cons_of_mem _ hmem', hread⟩

theorem exists_tiersOf_runAt (memory : Option (MemoryTier Obj)) (db : Database)
    (calls : List (ℤ × Call Obj)) :
    ∃ memory' db', runAt (tiersOf memory (some db)) calls = tiersOf memory' (some db') := by
  induction calls generalizing memory db with
  | nil => exact ⟨memory, db, rfl⟩
  | cons timed calls ih =>
    obtain ⟨now, call⟩ := timed
    obtain ⟨memory', disk', hstep, hmoved⟩ := moved_stepAt memory (some db) now call
    have hdisk : ∃ db', disk' = some db' := by
      cases hmoved with
      | read _ hgot =>
        cases hgot with
        | found | missed | faulted | purged | promoted => exact ⟨_, rfl⟩
      | written | refused | removed | prefixRemoved => exact ⟨_, rfl⟩
    obtain ⟨db', rfl⟩ := hdisk
    obtain ⟨memory'', db'', hrun⟩ := ih memory' db'
    exact ⟨memory'', db'', by rw [← hrun, ← hstep]; rfl⟩

/-- A `Put` that succeeds puts its value in place up to any time before its deadline, if it has
an expiry or finds no deadline on disk. -/
theorem keeps_put {memory : Option (MemoryTier Obj)} {db : Database} {t e last : ℤ}
    {call : Call Obj} {key encoded : List Char} {value : Option (Held Obj)}
    {values : Option (Held Obj) → Prop} (hputs : puts call = some (key, value, encoded, e))
    (he : e ≤ timeMax)
    (hsuccess : ((tiersOf memory (some db)).putEncoded (atTime t) key value encoded e).2.1 = true)
    (hrange : e = timeMax ∨ (-timeMax - 1 ≤ e + t ∧ e + t ≤ timeMax))
    (hlive : e = timeMax ∨ last < t + e)
    (hcond : e ≠ timeMax ∨ db.find (createExpiryKey key) = none) (hvalue : values value) :
    ∃ memory' disk', stepAt (tiersOf memory (some db)) (t, call) = tiersOf memory' disk' ∧
      Keeps key encoded values last memory' disk' := by
  have htaken : Taken t memory key value e encoded.length := by
    by_contra hnot
    rw [putEncoded_refused (some db) hnot] at hsuccess
    cases hsuccess
  have hstep : stepAt (tiersOf memory (some db)) (t, call) =
      tiersOf (putIn t memory key value e encoded.length) (some (written t key encoded e db)) := by
    unfold stepAt
    rw [step_of_puts hputs]
    exact congrArg Prod.fst (putEncoded_taken (some db) htaken)
  refine ⟨_, _, hstep, ⟨_, rfl, find_written_self t key encoded e db, ?_⟩, ?_⟩
  · rcases he.lt_or_eq with hlt | hmax
    · have hexpiry : (written t key encoded e db).find (createExpiryKey key) =
          some (decimal (e + t)) := by
        rw [find_written_expiry, if_pos hlt]
      obtain ⟨hlow, hhigh⟩ := hrange.resolve_left hlt.ne
      intro now hnow
      refine ⟨e + t - now, ?_, ?_⟩
      · rw [timeLeft_of_some hexpiry, stol_decimal hlow hhigh]
        rfl
      · have hbefore := hlive.resolve_left hlt.ne
        omega
    · apply alive_of_none
      rw [find_written_expiry, if_neg (by omega)]
      exact hcond.resolve_left (not_not.mpr hmax)
  · intro m' hm' tuple hheld
    obtain ⟨m, hm, rfl⟩ := Option.mem_map.mp hm'
    rw [item_of_taken (htaken m hm) hheld]
    exact hvalue

/-- A `Get` before the deadline returns the value in place. -/
theorem get_of_keeps {key encoded : List Char} {values : Option (Held Obj) → Prop} {now : ℤ}
    {memory : Option (MemoryTier Obj)} {disk : Option Database}
    (h : Keeps key encoded values now memory disk) (decoder : List Char → Option (Held Obj)) :
    ∃ value, ((tiersOf memory disk).get (atTime now) key decoder).2.1 = .ok value ∧
      (values value ∨ value = decoder encoded) := by
  obtain ⟨db, rfl, hfind, halive⟩ := h.onDisk
  obtain ⟨left, hleft, hpos⟩ := halive now le_rfl
  obtain ⟨memory', disk', result, hget, hgot⟩ := got_get memory (some db) now key decoder
  rw [hget]
  cases hgot with
  | found hmemory hheld hitem _ =>
    exact ⟨_, rfl, Or.inl (hitem ▸ h.inMemory _ hmemory _ hheld)⟩
  | missed hdisk => exact absurd ((hdisk db rfl).symm.trans hfind) (by simp)
  | faulted hdisk hfault =>
    obtain rfl := Option.some.inj hdisk
    exact absurd (hfault.symm.trans hleft) (by simp)
  | purged hdisk hleft' hexpired =>
    obtain rfl := Option.some.inj hdisk
    obtain rfl := Except.ok.inj (hleft'.symm.trans hleft)
    omega
  | promoted hdisk _ _ hfind' =>
    obtain rfl := Option.some.inj hdisk
    rw [Option.some.inj (hfind'.symm.trans hfind)]
    exact ⟨_, rfl, Or.inr rfl⟩

/-- **A value is returned until its own deadline**, and for ever without one, in every run with
a disk tier whose last call that touches the key is a successful `Put` that has an expiry or
finds no deadline of its key on disk: the value, or what the decoder of a read since then makes
of its text. The run up to the `Put` and the calls after it are arbitrary, evictions included.
SOURCE: DefaultCache.cpp:29-57, 112-269 -/
theorem get_until_deadline (memorySize : Option UInt64) (db : Database)
    (before after : List (ℤ × Call Obj)) (t : ℤ) (call : Call Obj)
    (hcalls : ∀ timed ∈ before ++ (t, call) :: after, Ordinary timed.2)
    (key encoded : List Char) (value : Option (Held Obj)) (e : ℤ)
    (hputs : puts call = some (key, value, encoded, e))
    (hsuccess : ((runAt (configured memorySize (some db)) before).putEncoded (atTime t) key value
      encoded e).2.1 = true)
    (hrange : e = timeMax ∨ (-timeMax - 1 ≤ e + t ∧ e + t ≤ timeMax))
    (huntouched : ∀ timed ∈ after, ¬ Touches key timed.2) (now : ℤ)
    (hnow : ∀ timed ∈ after, timed.1 ≤ now) (hlive : e = timeMax ∨ now < t + e)
    (hcond : e ≠ timeMax ∨
      diskHeld (runAt (configured memorySize (some db)) before) (createExpiryKey key) = none) :
    let c := runAt (configured memorySize (some db)) (before ++ (t, call) :: after)
    (∀ decoder, ∃ value', (c.get (atTime now) key decoder).2.1 = .ok value' ∧
        (value' = value ∨ ∃ decoder' ∈ decoder :: decodersIn key after,
          value' = decoder' encoded)) ∧
      ∃ value', (c.getData (atTime now) key).2.1 = castData value' ∧
        (value' = value ∨ ∃ decoder' ∈ asData :: decodersIn key after,
          value' = decoder' encoded) := by
  intro c
  have hcall : Ordinary call := hcalls (t, call) (by simp)
  obtain ⟨hkey, he⟩ := hcall.of_puts hputs
  obtain ⟨memory₀, db₀, hbefore⟩ :=
    exists_tiersOf_runAt (memorySize.map InMemoryCache.new : Option (MemoryTier Obj)) db before
  have hbefore' : runAt (configured memorySize (some db)) before = tiersOf memory₀ (some db₀) :=
    hbefore
  rw [hbefore'] at hsuccess hcond
  let values : Option (Held Obj) → Prop :=
    fun v => v = value ∨ ∃ decoder ∈ decodersIn key after, v = decoder encoded
  have hvalue : values value := Or.inl rfl
  obtain ⟨memory₁, disk₁, hput, hkeeps⟩ :=
    keeps_put hputs he hsuccess hrange hlive hcond hvalue
  obtain ⟨memory, disk, hafter, hkept⟩ := keeps_runAt hkey
    (fun timed hmem => hcalls timed (List.mem_append_right _ (List.mem_cons_of_mem _ hmem)))
    huntouched hnow (fun decoder hmem => Or.inr ⟨decoder, hmem, rfl⟩) hkeeps
  have hc : c = tiersOf memory disk := by
    rw [← hafter, ← hput, ← hbefore']
    exact runAt_append _ before ((t, call) :: after)
  have hread : ∀ decoder, ∃ value', (c.get (atTime now) key decoder).2.1 = .ok value' ∧
      (value' = value ∨ ∃ decoder' ∈ decoder :: decodersIn key after,
        value' = decoder' encoded) := by
    intro decoder
    obtain ⟨value', hget, hvalue⟩ := get_of_keeps hkept decoder
    exact ⟨value', hc ▸ hget, read_cons hvalue⟩
  refine ⟨hread, ?_⟩
  obtain ⟨value', hget, hvalue⟩ := hread asData
  exact ⟨value', getData_of_get hget, hvalue⟩

/-- A value that replaces one with an earlier deadline is returned until its own. -/
theorem getData_returns_second_value :
    let calls : List (ℤ × Call ℕ) := [(0, .putData ['k'] ['1'] 1), (0, .remove ['k']),
      (0, .putData ['k'] ['2'] 100), (1, .putData ['o'] ['3', '3'] timeMax)]
    let c := runAt (configured (some 2) (some SortedMap.empty)) calls
    (c.getData (atTime 99) ['k']).2.1 = .ok (some ['2']) := by
  intro calls c
  obtain ⟨-, value, hget, hvalue⟩ := @get_until_deadline ℕ (some 2) SortedMap.empty
    [(0, .putData ['k'] ['1'] 1), (0, .remove ['k'])] [(1, .putData ['o'] ['3', '3'] timeMax)] 0
    (.putData ['k'] ['2'] 100) (by
      intro timed hmem
      simp only [List.cons_append, List.nil_append, List.mem_cons, List.not_mem_nil,
        or_false] at hmem
      rcases hmem with rfl | rfl | rfl | rfl
      · exact ⟨by decide, by decide⟩
      · simp only [Ordinary]
        decide
      · exact ⟨by decide, by decide⟩
      · exact ⟨by decide, by decide⟩)
    ['k'] ['2'] (some (.data ['2'])) 100 rfl (by decide) (by decide)
    (by
      intro timed hmem
      rw [List.mem_singleton.mp hmem]
      simp [Touches])
    99 (by simp) (by decide) (Or.inl (by decide))
  rcases hvalue with rfl | ⟨decoder, hmem, rfl⟩
  · exact hget
  · have hdecoder : decoder = asData := by simpa [decodersIn, decodersOf, reads] using hmem
    rw [hdecoder] at hget
    exact hget

/-- The deadline of a value that was removed ends the value that is put after it without
expiry. -/
theorem old_deadline_ends_new_value :
    let before : List (ℤ × Call ℕ) := [(0, .putData ['k'] ['1'] 1), (0, .remove ['k'])]
    let c := runAt (configured none (some SortedMap.empty)) before
    let c' := stepAt c (0, .putData ['k'] ['2'] timeMax)
    (∀ timed ∈ before ++ [(0, .putData ['k'] ['2'] timeMax)], Ordinary timed.2) ∧
      (c.putEncoded (atTime 0) ['k'] (some (.data ['2'])) ['2'] timeMax).2.1 = true ∧
      (c'.getData (atTime 0) ['k']).2.1 = .ok (some ['2']) ∧
      (c'.getData (atTime 2) ['k']).2.1 = .ok none := by
  refine ⟨?_, by decide, by decide, by decide⟩
  intro timed hmem
  simp only [List.cons_append, List.nil_append, List.mem_cons, List.not_mem_nil,
    or_false] at hmem
  rcases hmem with rfl | rfl | rfl
  · exact ⟨by decide, by decide⟩
  · simp only [Ordinary]
    decide
  · exact ⟨by decide, by decide⟩

end OlpEdgeSdk.Analysis.DefaultCache

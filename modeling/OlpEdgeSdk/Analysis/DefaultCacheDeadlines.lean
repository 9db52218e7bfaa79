import OlpEdgeSdk.Analysis.DefaultCacheTimed

/-!
# Deadlines across the tiers

A deadline is kept three times: as a time in the tuple of the memory tier, as a text on disk
beside the value, and as the seconds that are left when a value moves from disk to memory.

`Backed` ties the three together, and `get_not_expired` is the result: whatever a `Get` returns
comes from a `Put` whose deadline has not passed.
-/

set_option autoImplicit false

namespace OlpEdgeSdk.Analysis.DefaultCache

open OlpEdgeSdk.Model OlpEdgeSdk.Base OlpEdgeSdk.Interface
open OlpEdgeSdk.Model.DefaultCache OlpEdgeSdk.Analysis.InMemoryCache

variable {Obj : Type}

/-! ## Calls with an expiry -/

/-- A call on keys that are not expiry keys, with an expiry that `time_t` can hold. -/
def Ordinary : Call Obj → Prop
  | .put key _ _ e => ¬ IsExpiryKey key ∧ e ≤ timeMax
  | .putData key _ e => ¬ IsExpiryKey key ∧ e ≤ timeMax
  | .get key _ => ¬ IsExpiryKey key
  | .getData key => ¬ IsExpiryKey key
  | .remove key => ¬ IsExpiryKey key
  | .removeKeysWithPrefix _ => True

theorem Ordinary.of_puts {call : Call Obj} {key encoded : List Char} {value : Option (Held Obj)}
    {e : ℤ} (h : Ordinary call) (hputs : puts call = some (key, value, encoded, e)) :
    ¬ IsExpiryKey key ∧ e ≤ timeMax := by
  cases call with
  | put | putData =>
    simp only [puts, Option.some.injEq, Prod.mk.injEq] at hputs
    obtain ⟨rfl, -, -, rfl⟩ := hputs
    exact h
  | get | getData | remove | removeKeysWithPrefix => simp [puts] at hputs

theorem Ordinary.of_reads {call : Call Obj} {key : List Char}
    {decoder : List Char → Option (Held Obj)} (h : Ordinary call)
    (hreads : reads call = some (key, decoder)) : ¬ IsExpiryKey key := by
  cases call with
  | get | getData =>
    simp only [reads, Option.some.injEq, Prod.mk.injEq] at hreads
    obtain ⟨rfl, -⟩ := hreads
    exact h
  | put | putData | remove | removeKeysWithPrefix => simp [reads] at hreads

/-- The times of a run of calls do not go back. -/
def InTime (calls : List (ℤ × Call Obj)) : Prop := (calls.map Prod.fst).Pairwise (· ≤ ·)

/-- The cache after `Open`, with the tiers that are configured. -/
def configured (memorySize : Option UInt64) (disk : Option Database) : DefaultCache Obj :=
  tiersOf (memorySize.map InMemoryCache.new) disk

/-- A disk without content, if there is one. -/
def emptyDisk (withDisk : Bool) : Option Database :=
  if withDisk then some SortedMap.empty else none

/-- The text of a deadline reads back as the deadline. -/
theorem stol_decimal {n : ℤ} (hlow : -timeMax - 1 ≤ n) (hhigh : n ≤ timeMax) :
    stol (decimal n) = .ok n := by
  unfold stol
  rw [readDecimal_decimal]
  simp [hlow, hhigh]

theorem eq_of_stol_decimal {n m : ℤ} (h : stol (decimal n) = .ok m) : m = n := by
  unfold stol at h
  rw [readDecimal_decimal] at h
  dsimp only at h
  split at h
  · exact (Except.ok.inj h).symm
  · cases h

/-! ## Where a value comes from -/

/-- A run has put a value with its text under a key, at a time and with an expiry. -/
def HasPut (calls : List (ℤ × Call Obj)) (key : List Char) (value : Option (Held Obj))
    (encoded : List Char) (t e : ℤ) : Prop :=
  ∃ call, (t, call) ∈ calls ∧ puts call = some (key, value, encoded, e)

/-- The decoders with which a run has read a key. -/
def decodersIn (key : List Char) (calls : List (ℤ × Call Obj)) :
    List (List Char → Option (Held Obj)) :=
  decodersOf key (calls.map Prod.snd)

/-- What the tiers hold was put by the run: a text on disk with its deadline beside it, an item
in memory with a deadline that is not later than its own. -/
structure Backed (calls : List (ℤ × Call Obj)) (memory : Option (MemoryTier Obj))
    (disk : Option Database) : Prop where
  onDisk : ∀ db ∈ disk, ∀ key encoded, ¬ IsExpiryKey key → db.find key = some encoded →
    ∃ value t e, HasPut calls key value encoded t e ∧
      (e = timeMax ∨
        e < timeMax ∧ db.find (createExpiryKey key) = some (decimal (e + t)))
  inMemory : ∀ m ∈ memory, ∀ key tuple, held m key = some tuple →
    ∃ value encoded t e, HasPut calls key value encoded t e ∧
      (tuple.item = value ∨ ∃ decoder ∈ decodersIn key calls, tuple.item = decoder encoded) ∧
      (e = timeMax ∨ tuple.expiry ≤ e + t)

section

variable {calls : List (ℤ × Call Obj)} {call : Call Obj} {now : ℤ}
  {memory memory' : Option (MemoryTier Obj)} {disk disk' : Option Database}

theorem HasPut.mono {more : List (ℤ × Call Obj)} {key encoded : List Char}
    {value : Option (Held Obj)} {t e : ℤ} (h : HasPut calls key value encoded t e) :
    HasPut (calls ++ more) key value encoded t e := by
  obtain ⟨call, hmem, hputs⟩ := h
  exact ⟨call, List.mem_append_left _ hmem, hputs⟩

theorem HasPut.last {key encoded : List Char} {value : Option (Held Obj)} {e : ℤ}
    (h : puts call = some (key, value, encoded, e)) :
    HasPut (calls ++ [(now, call)]) key value encoded now e :=
  ⟨call, List.mem_append_right _ (List.mem_singleton.mpr rfl), h⟩

theorem mem_decodersIn_mono {more : List (ℤ × Call Obj)} {key : List Char}
    {decoder : List Char → Option (Held Obj)} (h : decoder ∈ decodersIn key calls) :
    decoder ∈ decodersIn key (calls ++ more) := by
  unfold decodersIn decodersOf at h ⊢
  rw [List.map_append, List.filterMap_append]
  exact List.mem_append_left _ h

theorem mem_decodersIn_last {key : List Char} {decoder : List Char → Option (Held Obj)}
    (h : reads call = some (key, decoder)) :
    decoder ∈ decodersIn key (calls ++ [(now, call)]) :=
  mem_decodersOf (List.mem_map_of_mem (List.mem_append_right _ (List.mem_singleton.mpr rfl))) h

theorem Backed.mono {more : List (ℤ × Call Obj)} (h : Backed calls memory disk) :
    Backed (calls ++ more) memory disk where
  onDisk db hdb key encoded hkey hfind := by
    obtain ⟨value, t, e, hput, hexpiry⟩ := h.onDisk db hdb key encoded hkey hfind
    exact ⟨value, t, e, hput.mono, hexpiry⟩
  inMemory m hm key tuple hheld := by
    obtain ⟨value, encoded, t, e, hput, hitem, hexpiry⟩ := h.inMemory m hm key tuple hheld
    refine ⟨value, encoded, t, e, hput.mono, ?_, hexpiry⟩
    rcases hitem with hitem | ⟨decoder, hmem, hitem⟩
    · exact Or.inl hitem
    · exact Or.inr ⟨decoder, mem_decodersIn_mono hmem, hitem⟩

/-- A tier that holds less is backed as well. -/
theorem Backed.memory_sub (h : Backed calls memory disk)
    (hsub : ∀ m' ∈ memory', ∃ m ∈ memory, ∀ key tuple, held m' key = some tuple →
      held m key = some tuple) : Backed calls memory' disk where
  onDisk := h.onDisk
  inMemory m' hm' key tuple hheld := by
    obtain ⟨m, hm, hkeys⟩ := hsub m' hm'
    exact h.inMemory m hm key tuple (hkeys key tuple hheld)

theorem Backed.disk_sub (h : Backed calls memory disk)
    (hsub : ∀ db' ∈ disk', ∃ db ∈ disk, ∀ key encoded, ¬ IsExpiryKey key →
      db'.find key = some encoded → db.find key = some encoded ∧
        db'.find (createExpiryKey key) = db.find (createExpiryKey key)) :
    Backed calls memory disk' where
  onDisk db' hdb' key encoded hkey hfind := by
    obtain ⟨db, hdb, hkeys⟩ := hsub db' hdb'
    obtain ⟨hfound, hsame⟩ := hkeys key encoded hkey hfind
    rw [hsame]
    exact h.onDisk db hdb key encoded hkey hfound
  inMemory := h.inMemory

theorem Backed.lookedIn (h : Backed calls memory disk) (key : List Char) :
    Backed calls (lookedIn now memory key) disk := by
  apply h.memory_sub
  intro m' hm'
  obtain ⟨m, hm, rfl⟩ := Option.mem_map.mp hm'
  exact ⟨m, hm, fun other tuple hheld => held_of_held_get hheld⟩

/-- A `Put` into the memory tier is backed if the item it brings is. -/
theorem Backed.putIn (h : Backed calls memory disk) {key encoded : List Char}
    {value item : Option (Held Obj)} {t e left : ℤ} {size : ℕ}
    (hput : HasPut calls key value encoded t e)
    (hitem : item = value ∨ ∃ decoder ∈ decodersIn key calls, item = decoder encoded)
    (hexpiry : e = timeMax ∨ deadline now left ≤ e + t) :
    Backed calls (putIn now memory key item left size) disk where
  onDisk := h.onDisk
  inMemory m' hm' other tuple hheld := by
    obtain ⟨m, hm, rfl⟩ := Option.mem_map.mp hm'
    rcases held_put_cases hheld with ⟨rfl, rfl⟩ | hheld
    · exact ⟨value, encoded, t, e, hput, hitem, hexpiry⟩
    · exact h.inMemory m hm other tuple hheld

/-- The deadline of a `Put` is the one it is made with. -/
theorem deadline_le {e : ℤ} (now : ℤ) : e = timeMax ∨ deadline now e ≤ e + now := by
  by_cases he : e = timeMax
  · exact Or.inl he
  · have hexpiry : hasExpiry e = true := by simpa [hasExpiry] using he
    simp [deadline, hexpiry]

theorem Backed.written (h : Backed calls memory disk) {key encoded : List Char}
    {value : Option (Held Obj)} {e : ℤ} (hput : HasPut calls key value encoded now e)
    (hkey : ¬ IsExpiryKey key) (he : e ≤ timeMax) :
    Backed calls memory (disk.map (written now key encoded e)) where
  onDisk db' hdb' other text hother hfind := by
    obtain ⟨db, hdb, rfl⟩ := Option.mem_map.mp hdb'
    by_cases heq : other = key
    · subst heq
      rw [find_written_self] at hfind
      obtain rfl := Option.some.inj hfind
      refine ⟨value, now, e, hput, ?_⟩
      rcases he.lt_or_eq with hlt | hmax
      · rw [find_written_expiry, if_pos hlt]
        exact Or.inr ⟨hlt, rfl⟩
      · exact Or.inl hmax
    · rw [find_written_other db heq (ne_createExpiryKey hother key)] at hfind
      rw [find_written_other db (ne_createExpiryKey hkey other).symm (createExpiryKey_ne heq)]
      exact h.onDisk db hdb other text hother hfind
  inMemory := h.inMemory

/-- A key that is not an expiry key can be erased: no deadline of another key goes with it. -/
theorem Backed.erased (h : Backed calls memory disk) {key : List Char} (hkey : ¬ IsExpiryKey key) :
    Backed calls memory (disk.map (SortedMap.erase · key)) := by
  apply h.disk_sub
  intro db' hdb'
  obtain ⟨db, hdb, rfl⟩ := Option.mem_map.mp hdb'
  refine ⟨db, hdb, fun other encoded hother hfind => ?_⟩
  rw [SortedMap.find_erase] at hfind
  split at hfind
  · cases hfind
  · rw [SortedMap.find_erase, if_neg (ne_createExpiryKey hkey other).symm]
    exact ⟨hfind, rfl⟩

/-- A purge of a key drops its text and its deadline together. -/
theorem Backed.purged {db : Database} (h : Backed calls memory (some db)) {key : List Char}
    (hkey : ¬ IsExpiryKey key) : Backed calls memory (some (purgedDisk key db)) := by
  refine (h.erased hkey).disk_sub fun db' hdb' => ⟨db.erase key, rfl, ?_⟩
  intro other encoded hother hfind
  obtain rfl := Option.some.inj hdb'
  unfold purgedDisk at hfind ⊢
  rw [SortedMap.find_erase, if_neg (ne_createExpiryKey hother key)] at hfind
  refine ⟨hfind, ?_⟩
  have hne : other ≠ key := by
    rintro rfl
    simp [SortedMap.find_erase] at hfind
  rw [SortedMap.find_erase, if_neg (createExpiryKey_ne hne)]

/-- The time left on disk, for a text that is backed. -/
theorem left_of_backed {db : Database} {key : List Char} {t e left : ℤ}
    (hleft : timeLeft db key now = .ok left)
    (hexpiry : e < timeMax ∧ db.find (createExpiryKey key) = some (decimal (e + t))) :
    left = e + t - now := by
  rw [timeLeft_of_some hexpiry.2] at hleft
  cases hstol : stol (decimal (e + t)) with
  | error fault =>
    rw [hstol] at hleft
    cases hleft
  | ok n =>
    rw [hstol, eq_of_stol_decimal hstol] at hleft
    exact (Except.ok.inj hleft).symm

/-- **Step.** What the tiers hold stays backed by the run. The time that is left is at most the
expiry of the `Put`, so a promoted value never passes for one without expiry. -/
theorem Backed.moved (h : Backed calls memory disk) (hcall : Ordinary call)
    (hpre : ∀ keyPrefix, call ≠ .removeKeysWithPrefix keyPrefix)
    (htime : ∀ timed ∈ calls, timed.1 ≤ now) (hmoved : Moved now memory disk call memory' disk') :
    Backed (calls ++ [(now, call)]) memory' disk' := by
  have hmono : Backed (calls ++ [(now, call)]) memory disk := h.mono
  cases hmoved with
  | written hputs _ =>
    obtain ⟨hkey, he⟩ := hcall.of_puts hputs
    have hput : HasPut (calls ++ [(now, call)]) _ _ _ now _ := HasPut.last hputs
    exact (hmono.putIn hput (Or.inl rfl) (deadline_le now)).written hput hkey he
  | refused hputs =>
    exact hmono.putIn (HasPut.last hputs) (Or.inl rfl) (deadline_le now)
  | read hreads hgot =>
    have hkey := hcall.of_reads hreads
    cases hgot with
    | found => exact hmono.lookedIn _
    | missed => exact hmono.lookedIn _
    | faulted => exact hmono.lookedIn _
    | purged hdisk _ _ =>
      subst hdisk
      exact (hmono.lookedIn _).purged hkey
    | promoted hdisk hleft hlive hfind =>
      rename_i left _
      subst hdisk
      obtain ⟨value, t, e, hput, hexpiry⟩ := h.onDisk _ rfl _ _ hkey hfind
      refine (hmono.lookedIn _).putIn hput.mono
        (Or.inr ⟨_, mem_decodersIn_last hreads, rfl⟩) ?_
      rcases hexpiry with hmax | hexpiry
      · exact Or.inl hmax
      · have hleft := left_of_backed hleft hexpiry
        have ht : t ≤ now := by
          obtain ⟨_, hmem, -⟩ := hput
          exact htime _ hmem
        have he := hexpiry.1
        have hfinite : hasExpiry left = true := by
          simp only [hasExpiry, bne_iff_ne, ne_eq]
          omega
        right
        simp only [deadline, hfinite, if_true]
        omega
  | removed key =>
    refine (hmono.memory_sub ?_).erased hcall
    intro m' hm'
    obtain ⟨m, hm, rfl⟩ := Option.mem_map.mp hm'
    refine ⟨m, hm, fun other tuple hheld => ?_⟩
    rw [held_remove] at hheld
    split at hheld
    · cases hheld
    · exact hheld
  | prefixRemoved keyPrefix => exact absurd rfl (hpre keyPrefix)

end

/-! ## Nothing expired is returned -/

theorem InTime.le_last {calls : List (ℤ × Call Obj)} {timed : ℤ × Call Obj}
    (h : InTime (calls ++ [timed])) : InTime calls ∧ ∀ earlier ∈ calls, earlier.1 ≤ timed.1 := by
  unfold InTime at h
  rw [List.map_append, List.pairwise_append] at h
  refine ⟨h.1, fun earlier hmem => ?_⟩
  exact h.2.2 earlier.1 (List.mem_map_of_mem hmem) timed.1 (List.mem_singleton.mpr rfl)

/-- **Run.** After every run the tiers are backed by it. -/
theorem backed_runAt (memorySize : Option UInt64) (withDisk : Bool)
    (calls : List (ℤ × Call Obj))
    (hcalls : ∀ timed ∈ calls, Ordinary timed.2 ∧
      ∀ keyPrefix, timed.2 ≠ .removeKeysWithPrefix keyPrefix)
    (htimes : InTime calls) :
    ∃ memory disk, runAt (configured memorySize (emptyDisk withDisk)) calls =
        tiersOf memory disk ∧
      Backed calls memory disk := by
  induction calls using List.reverseRecOn with
  | nil =>
    refine ⟨_, _, rfl, ⟨?_, ?_⟩⟩
    · intro db hdb key encoded _ hfind
      unfold emptyDisk at hdb
      split at hdb
      · obtain rfl := Option.some.inj hdb
        simp at hfind
      · cases hdb
    · intro m hm key tuple hheld
      obtain ⟨maxSize, -, rfl⟩ := Option.mem_map.mp hm
      cases hheld
  | append_singleton calls timed ih =>
    obtain ⟨now, call⟩ := timed
    obtain ⟨hbefore, htime⟩ := htimes.le_last
    obtain ⟨memory, db, hrun, hbacked⟩ :=
      ih (fun timed hmem => hcalls timed (List.mem_append_left _ hmem)) hbefore
    obtain ⟨hordinary, hpre⟩ := hcalls (now, call) (by simp)
    obtain ⟨memory', disk', hstep, hmoved⟩ := moved_stepAt memory db now call
    refine ⟨memory', disk', ?_, hbacked.moved hordinary hpre htime hmoved⟩
    rw [runAt_append, hrun]
    exact hstep

/-- What a `Get` returns from tiers that are backed has not expired. -/
theorem Backed.get {calls : List (ℤ × Call Obj)} {memory : Option (MemoryTier Obj)}
    {disk : Option Database} (h : Backed calls memory disk) {now : ℤ} {key : List Char}
    (hkey : ¬ IsExpiryKey key) {decoder : List Char → Option (Held Obj)} {value : Held Obj}
    (hvalue : ((tiersOf memory disk).get (atTime now) key decoder).2.1 = .ok (some value)) :
    ∃ value' encoded t e, HasPut calls key value' encoded t e ∧
      (some value = value' ∨
        ∃ decoder' ∈ decoder :: decodersIn key calls, some value = decoder' encoded) ∧
      (e = timeMax ∨ now ≤ t + e) := by
  obtain ⟨memory', disk', result, heq, hgot⟩ := got_get memory disk now key decoder
  have hresult : result = .ok (some value) := by rw [← hvalue, heq]
  cases hgot with
  | found hmemory hheld hitem hlive =>
    obtain rfl := Option.some.inj (Except.ok.inj hresult)
    obtain ⟨value', encoded, t, e, hput, hfrom, hexpiry⟩ := h.inMemory _ hmemory key _ hheld
    rw [hitem] at hfrom
    exact ⟨value', encoded, t, e, hput, read_cons (Or.inl hfrom), hexpiry.imp_right (by omega)⟩
  | missed => cases hresult
  | faulted => cases hresult
  | purged => cases hresult
  | promoted hdisk hleft hlive hfind =>
    obtain ⟨value', t, e, hput, hexpiry⟩ := h.onDisk _ hdisk key _ hkey hfind
    refine ⟨value', _, t, e, hput, read_cons (Or.inr (Except.ok.inj hresult).symm), ?_⟩
    rcases hexpiry with hmax | hexpiry
    · exact Or.inl hmax
    · have hleft := left_of_backed hleft hexpiry
      exact Or.inr (by omega)

/-- A byte vector that is returned was not cast to something else. -/
theorem get_of_getData {c : DefaultCache Obj} {clock : Clock} {key bytes : List Char}
    (h : (c.getData clock key).2.1 = .ok (some bytes)) :
    (c.get clock key asData).2.1 = .ok (some (.data bytes)) := by
  cases hresult : (c.get clock key asData).2.1 with
  | error fault =>
    change (c.get clock key asData).2.1.bind castData = _ at h
    rw [hresult] at h
    cases h
  | ok value =>
    rw [getData_of_get hresult] at h
    cases value with
    | none => cases h
    | some value =>
      cases value with
      | object obj => cases h
      | data bytes' =>
        obtain rfl := Option.some.inj (Except.ok.inj h)
        rfl

/-- **A `Get` returns nothing that has expired.** In every configuration and after every run of
`Put`, `Get` and `Remove` in time, what a `Get` returns at a time was put under the key, or is
what a decoder made of the text it was put with, and the expiry of that `Put` has not passed.
SOURCE: DefaultCache.cpp:29-57, 112-253; InMemoryCache.cpp:63-97 -/
theorem get_not_expired (memorySize : Option UInt64) (withDisk : Bool)
    (calls : List (ℤ × Call Obj))
    (hcalls : ∀ timed ∈ calls, Ordinary timed.2 ∧
      ∀ keyPrefix, timed.2 ≠ .removeKeysWithPrefix keyPrefix)
    (htimes : InTime calls) (now : ℤ) (key : List Char) (hkey : ¬ IsExpiryKey key) :
    let c := runAt (configured memorySize (emptyDisk withDisk)) calls
    (∀ decoder value, (c.get (atTime now) key decoder).2.1 = .ok (some value) →
        ∃ value' encoded t e, HasPut calls key value' encoded t e ∧
          (some value = value' ∨
            ∃ decoder' ∈ decoder :: decodersIn key calls, some value = decoder' encoded) ∧
          (e = timeMax ∨ now ≤ t + e)) ∧
      ∀ bytes, (c.getData (atTime now) key).2.1 = .ok (some bytes) →
        ∃ value' encoded t e, HasPut calls key value' encoded t e ∧
          (some (.data bytes) = value' ∨
            ∃ decoder' ∈ asData :: decodersIn key calls, some (.data bytes) = decoder' encoded) ∧
          (e = timeMax ∨ now ≤ t + e) := by
  intro c
  obtain ⟨memory, disk, hrun, hbacked⟩ :=
    backed_runAt memorySize withDisk calls hcalls htimes
  have hc : c = tiersOf memory disk := hrun
  refine ⟨fun decoder value hvalue => ?_, fun bytes hbytes => ?_⟩
  · rw [hc] at hvalue
    exact hbacked.get hkey hvalue
  · have hvalue := get_of_getData hbytes
    rw [hc] at hvalue
    exact hbacked.get hkey hvalue

/-- A value that was evicted from memory and promoted again is returned at its deadline, and
not after it. -/
theorem promoted_until_deadline :
    let calls : List (ℤ × Call ℕ) := [(0, .putData ['k'] ['1'] 5),
      (1, .putData ['o'] ['3', '3'] timeMax), (2, .getData ['k'])]
    let c := runAt (configured (some 2) (emptyDisk true)) calls
    (c.getData (atTime 5) ['k']).2.1 = .ok (some ['1']) ∧
      (c.getData (atTime 6) ['k']).2.1 = .ok none ∧
      ∃ value encoded t e, HasPut calls ['k'] value encoded t e ∧ (e = timeMax ∨ 5 ≤ t + e) := by
  intro calls c
  have hcalls : ∀ timed ∈ calls, Ordinary timed.2 ∧
      ∀ keyPrefix, timed.2 ≠ .removeKeysWithPrefix keyPrefix := by
    intro timed hmem
    simp only [calls, List.mem_cons, List.not_mem_nil, or_false] at hmem
    rcases hmem with rfl | rfl | rfl
    · exact ⟨⟨by decide, by decide⟩, fun _ h => nomatch h⟩
    · exact ⟨⟨by decide, by decide⟩, fun _ h => nomatch h⟩
    · exact ⟨by simp only [Ordinary]; decide, fun _ h => nomatch h⟩
  have htimes : InTime calls := by
    unfold InTime
    decide
  have hreturned : (c.getData (atTime 5) ['k']).2.1 = .ok (some ['1']) := by decide
  obtain ⟨-, hdata⟩ := get_not_expired (some 2) true calls hcalls htimes 5 ['k'] (by decide)
  obtain ⟨value, encoded, t, e, hput, -, hexpiry⟩ := hdata _ hreturned
  exact ⟨hreturned, by decide, value, encoded, t, e, hput, hexpiry⟩

end OlpEdgeSdk.Analysis.DefaultCache

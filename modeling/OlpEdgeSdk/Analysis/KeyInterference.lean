import OlpEdgeSdk.Analysis.DefaultCacheFrame

/-!
# Keys that interfere

A call on one key should leave what is read of another alone, and no call should end by an
exception. The disk tier keeps the text of a key and the text of its deadline side by side, as
two entries of one database, and nothing keeps a user from the key of a deadline; the memory
tier purges a bucket with every key it lists, whatever item that key holds by now.
`LeavesAlone` is the condition and `other_key_undisturbed_iff` the result.
-/

set_option autoImplicit false

namespace OlpEdgeSdk.Analysis.DefaultCache

open OlpEdgeSdk.Model OlpEdgeSdk.Base OlpEdgeSdk.Interface
open OlpEdgeSdk.Model.DefaultCache OlpEdgeSdk.Analysis.InMemoryCache

variable {Obj : Type}

/-! ## No call disturbs another key -/

/-- The exception a call ends by, if it does. A `Put` returns a flag and the removals return
a flag. -/
def faultOf (c : DefaultCache Obj) (now : ℤ) : Call Obj → Option Fault
  | .get key decoder =>
    match (c.get (atTime now) key decoder).2.1 with
    | .error fault => some fault
    | .ok _ => none
  | .getData key =>
    match (c.getData (atTime now) key).2.1 with
    | .error fault => some fault
    | .ok _ => none
  | _ => none

/-- No exception leaves a call, and every read of another key returns at every later time what
it would have returned without the call. -/
def Undisturbed (c : DefaultCache Obj) (now : ℤ) (call : Call Obj) (key : List Char) : Prop :=
  faultOf c now call = none ∧ ∀ t, now ≤ t → t ≤ timeMax →
    (∀ decoder, ((stepAt c (now, call)).get (atTime t) key decoder).2.1 =
      (c.get (atTime t) key decoder).2.1) ∧
    ((stepAt c (now, call)).getData (atTime t) key).2.1 = (c.getData (atTime t) key).2.1

/-- The condition under which a call leaves another key alone: what it reads can be read; it
sweeps no item of the key that the memory tier still answers with; and what it writes at the
two entries of the key on disk shows what these show already, or is not looked at because the
memory tier answers for the key for ever. -/
structure LeavesAlone (now : ℤ) (memory : Option (MemoryTier Obj)) (db : Database)
    (call : Call Obj) (key : List Char) : Prop where
  readable : ∀ other decoder, reads call = some (other, decoder) →
    answer now memory other = none → ∃ expiry, (itemOn db other).expires = .ok expiry
  isData : ∀ other, call = .getData other → ∀ object : Obj,
    answer now memory other ≠ some (.object object)
  spared : answer now memory key ≠ none →
    ∀ t, Sweeps now memory db call t → ¬ ListsIn memory t key
  deadlineKept : ∀ text, Writes now memory db call (createExpiryKey key) text →
    silentFrom now memory key ≤ timeMax →
    (DiskItem.mk text (db.find key)).shows (silentFrom now memory key) =
      (itemOn db key).shows (silentFrom now memory key)
  textKept : ∀ text, Writes now memory db call key text →
    silentFrom now memory key ≤ timeMax →
    (DiskItem.mk (db.find (createExpiryKey key)) text).shows (silentFrom now memory key) =
      (itemOn db key).shows (silentFrom now memory key)

section

variable {now : ℤ} {memory memory' : Option (MemoryTier Obj)} {db db' : Database}
  {call : Call Obj} {key : List Char}

/-- Of the two entries of another key a call writes at most one. -/
theorem not_both_written (hother : Other key call) {text text' : Option (List Char)}
    (hdeadline : Writes now memory db call (createExpiryKey key) text) :
    ¬ Writes now memory db call key text' := by
  -- what a call writes beside the text of a key is the deadline of that key
  have hpair : ∀ {other : List Char}, other ≠ key →
      createExpiryKey key = other ∨ createExpiryKey key = createExpiryKey other →
      ¬ (key = other ∨ key = createExpiryKey other) := by
    rintro other hne (rfl | heq) (heq' | heq')
    · exact hne heq'.symm
    · have hlength := congrArg List.length heq'
      simp [createExpiryKey] at hlength
    · exact hne heq'.symm
    · exact hne (createExpiryKey_injective heq).symm
  intro htext
  cases call with
  | put other value encoded e | putData other encoded e =>
    have h := ((writes_put rfl _ _).mp hdeadline).2
    have h' := ((writes_put rfl _ _).mp htext).2
    refine hpair hother ?_ ?_
    · exact h.imp And.left fun h => h.2.1
    · exact h'.imp And.left fun h => h.2.1
  | get other decoder | getData other =>
    exact hpair hother ((writes_get rfl _ _).mp hdeadline).2.1
      ((writes_get rfl _ _).mp htext).2.1
  | remove other => exact hother ((writes_remove _ _).mp htext).1.symm
  | removeKeysWithPrefix keyPrefix =>
    exact hother ((writes_removeKeysWithPrefix _ _).mp htext).1

/-- What the entries of another key show after a call. -/
theorem Leaves.shows_iff (h : Leaves now memory db call memory' db') (hother : Other key call)
    (t : ℤ) :
    (itemOn db' key).shows t = (itemOn db key).shows t ↔
      (∀ text, Writes now memory db call (createExpiryKey key) text →
        (DiskItem.mk text (db.find key)).shows t = (itemOn db key).shows t) ∧
      ∀ text, Writes now memory db call key text →
        (DiskItem.mk (db.find (createExpiryKey key)) text).shows t =
          (itemOn db key).shows t := by
  by_cases hdeadline : ∃ text, Writes now memory db call (createExpiryKey key) text
  · obtain ⟨text, hdeadline⟩ := hdeadline
    have hkey := h.kept key fun text' => not_both_written hother hdeadline
    have hitem : itemOn db' key = ⟨text, db.find key⟩ :=
      DiskItem.ext (h.written _ _ hdeadline) hkey
    rw [hitem]
    constructor
    · intro hsame
      refine ⟨fun text' hwrites => ?_, fun text' hwrites => ?_⟩
      · rwa [← (h.written _ _ hdeadline).symm.trans (h.written _ _ hwrites)]
      · exact absurd hwrites (not_both_written hother hdeadline)
    · exact fun hsame => hsame.1 text hdeadline
  · push Not at hdeadline
    have hexpiry := h.kept _ hdeadline
    by_cases htext : ∃ text, Writes now memory db call key text
    · obtain ⟨text, htext⟩ := htext
      have hitem : itemOn db' key = ⟨db.find (createExpiryKey key), text⟩ :=
        DiskItem.ext hexpiry (h.written _ _ htext)
      rw [hitem]
      constructor
      · intro hsame
        refine ⟨fun text' hwrites => absurd hwrites (hdeadline text'), fun text' hwrites => ?_⟩
        rwa [← (h.written _ _ htext).symm.trans (h.written _ _ hwrites)]
      · exact fun hsame => hsame.2 text htext
    · push Not at htext
      have hitem : itemOn db' key = itemOn db key :=
        DiskItem.ext hexpiry (h.kept _ htext)
      rw [hitem]
      constructor
      · intro _
        exact ⟨fun text hwrites => absurd hwrites (hdeadline text),
          fun text hwrites => absurd hwrites (htext text)⟩
      · intro _
        rfl

/-- A call ends by no exception iff what it reads can be read. -/
theorem faultOf_eq_none_iff (hnow : now ≤ timeMax) :
    faultOf (tiersOf memory (some db)) now call = none ↔
      (∀ other decoder, reads call = some (other, decoder) → answer now memory other = none →
        ∃ expiry, (itemOn db other).expires = .ok expiry) ∧
      ∀ other, call = .getData other → ∀ object : Obj,
        answer now memory other ≠ some (.object object) := by
  -- a deadline that cannot be read is what `diskAnswer` can fail by
  have hdisk : ∀ (item : DiskItem) (decoder : List Char → Option (Held Obj)),
      (∃ value, diskAnswer now item decoder = .ok value) ↔
        ∃ expiry, item.expires = .ok expiry := by
    intro item decoder
    unfold diskAnswer DiskItem.shows
    cases item.expires with
    | error fault => simp [Except.map]
    | ok expiry => simp [Except.map]
  cases call with
  | put | putData | remove | removeKeysWithPrefix => simp [faultOf, reads]
  | get other decoder =>
    simp only [faultOf, get_result_tiersOf memory db hnow, reads]
    cases hanswer : answer now memory other with
    | some value => simp [hanswer]
    | none =>
      have hfails := hdisk (itemOn db other) decoder
      cases hread : diskAnswer now (itemOn db other) decoder with
      | error fault => simpa [hread, hanswer] using hfails
      | ok value => simpa [hread, hanswer] using hfails
  | getData other =>
    have hget : ((tiersOf memory (some db)).getData (atTime now) other).2.1 =
        ((tiersOf memory (some db)).get (atTime now) other asData).2.1.bind castData := rfl
    simp only [faultOf, hget, get_result_tiersOf memory db hnow, reads]
    cases hanswer : answer now memory other with
    | some value =>
      cases value with
      | data bytes => simp [hanswer, Except.bind, castData]
      | object object => simp [hanswer, Except.bind, castData]
    | none =>
      have hcast : ∀ shown : Option (List Char × ℤ), ∃ value,
          castData (shown.bind fun s => (asData s.1 : Option (Held Obj))) = .ok value := by
        intro shown
        cases shown with
        | none => exact ⟨none, rfl⟩
        | some s => exact ⟨some s.1, rfl⟩
      unfold diskAnswer DiskItem.shows
      cases hexpires : (itemOn db other).expires with
      | error fault => simp [Except.map, Except.bind, hanswer, hexpires]
      | ok expiry =>
        obtain ⟨value, hvalue⟩ := hcast (if expiry ≤ now then none
          else (itemOn db other).text.map fun text => (text, expiry))
        simp [Except.map, Except.bind, hvalue, hanswer, hexpires]

/-- A call whose entries on disk are none of the two of a key. -/
def Apart (key : List Char) : Call Obj → Prop
  | .put other _ _ _ => other ≠ createExpiryKey key ∧ key ≠ createExpiryKey other
  | .putData other _ _ => other ≠ createExpiryKey key ∧ key ≠ createExpiryKey other
  | .get other _ => other ≠ createExpiryKey key ∧ key ≠ createExpiryKey other
  | .getData other => other ≠ createExpiryKey key ∧ key ≠ createExpiryKey other
  | .remove other => other ≠ createExpiryKey key
  | .removeKeysWithPrefix keyPrefix => ¬ keyPrefix <+: createExpiryKey key

/-- **A call that is apart from a key writes neither of its entries.** -/
theorem not_writes_of_apart (hother : Other key call) (hapart : Apart key call)
    (text : Option (List Char)) :
    ¬ Writes now memory db call (createExpiryKey key) text ∧
      ¬ Writes now memory db call key text := by
  -- neither the text of a key of the call nor its deadline
  have hneither : ∀ {other : List Char}, other ≠ key → other ≠ createExpiryKey key →
      key ≠ createExpiryKey other →
      ¬ (createExpiryKey key = other ∨ createExpiryKey key = createExpiryKey other) ∧
        ¬ (key = other ∨ key = createExpiryKey other) := by
    intro other hne hentry hdeadline
    refine ⟨?_, ?_⟩
    · rintro (heq | heq)
      · exact hentry heq.symm
      · exact hne (createExpiryKey_injective heq).symm
    · rintro (heq | heq)
      · exact hne heq.symm
      · exact hdeadline heq
  cases call with
  | put other value encoded e | putData other encoded e =>
    have h := hneither hother hapart.1 hapart.2
    refine ⟨fun hwrites => h.1 ?_, fun hwrites => h.2 ?_⟩
    · exact ((writes_put rfl _ _).mp hwrites).2.imp And.left fun h => h.2.1
    · exact ((writes_put rfl _ _).mp hwrites).2.imp And.left fun h => h.2.1
  | get other decoder | getData other =>
    have h := hneither hother hapart.1 hapart.2
    refine ⟨fun hwrites => h.1 ?_, fun hwrites => h.2 ?_⟩
    · exact ((writes_get rfl _ _).mp hwrites).2.1
    · exact ((writes_get rfl _ _).mp hwrites).2.1
  | remove other =>
    refine ⟨fun hwrites => hapart ?_, fun hwrites => hother ?_⟩
    · exact ((writes_remove _ _).mp hwrites).1.symm
    · exact ((writes_remove _ _).mp hwrites).1.symm
  | removeKeysWithPrefix keyPrefix =>
    refine ⟨fun hwrites => hapart ?_, fun hwrites => hother ?_⟩
    · exact ((writes_removeKeysWithPrefix _ _).mp hwrites).1
    · exact ((writes_removeKeysWithPrefix _ _).mp hwrites).1

end

/-- The cache that `Open` makes over a disk on which an earlier one has left the text `1` under
`k`, which expires at ten. -/
def reopened : DefaultCache ℕ :=
  configured (some 64) (some (written 0 ['k'] ['1'] 10 SortedMap.empty))

/-- Its memory tier has room for one small item. -/
theorem evictsNothing_reopened {call : Call ℕ} {key encoded : List Char}
    {value : Option (Held ℕ)} {e : ℤ} (h : puts call = some (key, value, encoded, e))
    (hroom : NoneDropped 0 (some (InMemoryCache.new 64)) key value e encoded.length) :
    EvictsNothing 0 (some (InMemoryCache.new 64)) (written 0 ['k'] ['1'] 10 SortedMap.empty)
      call := by
  refine ⟨?_, ?_⟩
  · intro key' value' encoded' e' h'
    obtain ⟨rfl, rfl, rfl, rfl⟩ := by simpa using h.symm.trans h'
    exact hroom
  · intro key' decoder left encoded' h'
    rw [reads_of_puts h] at h'
    cases h'

end OlpEdgeSdk.Analysis.DefaultCache

import OlpEdgeSdk.Analysis.DefaultCacheDeadlines

/-!
# What is read of a key

A `Get` returns what the memory tier answers at its time, or else what the two entries of the
key on disk show then, its text and its deadline: `get_result`. Value and expiry are all a
reader can see. Two disk tiers show the same from a time on iff they show the same text with
the same deadline at that time, and `reads_eq_iff` says when no later read of a key can tell two
caches apart.
-/

set_option autoImplicit false

namespace OlpEdgeSdk.Analysis.DefaultCache

open OlpEdgeSdk.Model OlpEdgeSdk.Base OlpEdgeSdk.Interface
open OlpEdgeSdk.Model.DefaultCache OlpEdgeSdk.Analysis.InMemoryCache

variable {Obj : Type}

/-! ## What is read at a time -/

/-- What the memory tier holds for a key. -/
def heldIn (memory : Option (MemoryTier Obj)) (key : List Char) :
    Option (ItemTuple (Held Obj)) :=
  memory.bind fun m => held m key

/-- A bucket of the memory tier lists a key. -/
def ListsIn (memory : Option (MemoryTier Obj)) (t : ℤ) (key : List Char) : Prop :=
  ∃ m ∈ memory, Lists m t key

/-- What the memory tier answers for a key at a time. -/
def answer (now : ℤ) (memory : Option (MemoryTier Obj)) (key : List Char) :
    Option (Held Obj) :=
  (heldIn memory key).bind fun tuple => if now ≤ tuple.expiry then tuple.item else none

/-- The first time from now on at which the memory tier does not answer for a key. -/
def silentFrom (now : ℤ) (memory : Option (MemoryTier Obj)) (key : List Char) : ℤ :=
  match heldIn memory key with
  | none => now
  | some tuple => if tuple.item.isSome then max now (tuple.expiry + 1) else now

/-- The two entries of a key in the disk tier. -/
@[ext]
structure DiskItem where
  expiryText : Option (List Char)
  text : Option (List Char)
deriving DecidableEq, Repr

def diskItem (disk : Option DiskCache) (key : List Char) : DiskItem :=
  ⟨disk.bind fun d => d.get (createExpiryKey key), disk.bind fun d => d.get key⟩

/-- When the text expires. Without a deadline that is after every time. -/
def DiskItem.expires (item : DiskItem) : Except Fault ℤ :=
  match item.expiryText with
  | none => .ok (timeMax + 1)
  | some expiryText => stol expiryText

/-- The text that the two entries show at a time, with the time at which it expires. -/
def DiskItem.shows (item : DiskItem) (now : ℤ) : Except Fault (Option (List Char × ℤ)) :=
  item.expires.map fun expiry =>
    if expiry ≤ now then none else item.text.map fun text => (text, expiry)

/-- What a reader makes of the disk tier at a time. -/
def diskAnswer (now : ℤ) (item : DiskItem) (decoder : List Char → Option (Held Obj)) :
    Except Fault (Option (Held Obj)) :=
  (item.shows now).map fun shown => shown.bind fun s => decoder s.1

theorem bind_get_eq_answer (memory : Option (MemoryTier Obj)) (now : ℤ) (key : List Char) :
    (memory.bind fun m => (m.get (atTime now) key).2.1) = answer now memory key := by
  cases memory with
  | none => rfl
  | some m =>
    unfold answer heldIn
    simp only [Option.bind_some]
    cases hheld : held m key with
    | none => rw [get_of_held_none (atTime now) hheld, Option.bind_none]
    | some tuple =>
      rw [get_of_held (atTime now) hheld, Option.bind_some]
      by_cases hlive : now ≤ tuple.expiry
      · have hnow : ¬ tuple.expiry < (atTime now).now := not_lt.mpr hlive
        rw [if_neg hnow, if_pos hlive]
      · have hnow : tuple.expiry < (atTime now).now := not_le.mp hlive
        rw [if_pos hnow, if_neg hlive]

/-- The memory tier answers up to a time and is silent from then on. -/
theorem answer_eq_none_iff {now t : ℤ} (memory : Option (MemoryTier Obj)) (key : List Char)
    (ht : now ≤ t) : answer t memory key = none ↔ silentFrom now memory key ≤ t := by
  unfold answer silentFrom
  cases heldIn memory key with
  | none => simpa using ht
  | some tuple =>
    simp only [Option.bind_some]
    cases tuple.item with
    | none => simpa using ht
    | some value =>
      by_cases hlive : t ≤ tuple.expiry
      · have hlater : ¬ max now (tuple.expiry + 1) ≤ t := by omega
        simp [hlive, hlater]
      · have hsilent : max now (tuple.expiry + 1) ≤ t := by omega
        simp [hlive, hsilent]

/-- The memory tier that is silent stays so. -/
theorem answer_eq_none_of_le {now t : ℤ} {memory : Option (MemoryTier Obj)} {key : List Char}
    (h : answer now memory key = none) (ht : now ≤ t) : answer t memory key = none := by
  rw [answer_eq_none_iff memory key le_rfl] at h
  exact (answer_eq_none_iff memory key ht).mpr (h.trans ht)

/-- A memory tier that has kept what it held for a key, or lost it, answers as before iff there
was nothing to answer or it has kept it. -/
theorem answer_eq_iff_kept {now : ℤ} (hnow : now ≤ timeMax)
    {memory memory' : Option (MemoryTier Obj)} {key : List Char} {kept : Prop}
    (hheld : ∀ tuple, heldIn memory' key = some tuple ↔ heldIn memory key = some tuple ∧ kept) :
    (∀ t, now ≤ t → t ≤ timeMax → answer t memory' key = answer t memory key) ↔
      (answer now memory key ≠ none → kept) := by
  by_cases hkept : kept
  · have hsame : heldIn memory' key = heldIn memory key :=
      Option.ext fun tuple => (hheld tuple).trans (and_iff_left hkept)
    refine iff_of_true (fun t _ _ => ?_) fun _ => hkept
    unfold answer
    rw [hsame]
  · have hlost : ∀ t, answer t memory' key = none := by
      intro t
      have hnone : heldIn memory' key = none :=
        Option.eq_none_iff_forall_ne_some.mpr fun tuple h => hkept ((hheld tuple).mp h).2
      unfold answer
      rw [hnone, Option.bind_none]
    simp only [hkept, imp_false, not_not]
    constructor
    · exact fun h => (h now le_rfl hnow).symm.trans (hlost now)
    · intro hnone t ht _
      rw [hlost t, answer_eq_none_of_le hnone ht]

theorem le_silentFrom (now : ℤ) (memory : Option (MemoryTier Obj)) (key : List Char) :
    now ≤ silentFrom now memory key := by
  unfold silentFrom
  split
  · exact le_refl now
  · split
    · exact le_max_left _ _
    · exact le_refl now

/-- **What `Get` returns at a time**: what the memory tier answers, or else what the reader
makes of the disk tier. -/
theorem get_result (memory : Option (MemoryTier Obj)) (disk : Option DiskCache) {now : ℤ}
    (hnow : now ≤ timeMax) (key : List Char) (decoder : List Char → Option (Held Obj)) :
    ((⟨true, memory, disk⟩ : DefaultCache Obj).get (atTime now) key decoder).2.1 =
      match answer now memory key with
      | some value => .ok (some value)
      | none => diskAnswer now (diskItem disk key) decoder := by
  have hmemory : (⟨true, memory, disk⟩ : DefaultCache Obj).getMemory (atTime now) key =
      (⟨true, lookedIn now memory key, disk⟩, answer now memory key, atTime now) := by
    rw [← bind_get_eq_answer]
    cases memory with
    | none => rfl
    | some m =>
      have hclock := clock_get m now key
      simp only [getMemory, lookedIn, Option.map_some, Option.bind_some, hclock]
  unfold DefaultCache.get
  simp only [hmemory, if_true]
  cases answer now memory key with
  | some value => rfl
  | none =>
    cases disk with
    | none => simp [getDisk, diskAnswer, diskItem, DiskItem.shows, DiskItem.expires, Except.map]
    | some d =>
      simp only [getDisk, getRemainingExpiryTime, diskAnswer, diskItem, DiskItem.shows,
        DiskItem.expires, Option.bind_some]
      cases d.get (createExpiryKey key) with
      | none =>
        have hpos : ¬ timeMax ≤ 0 := by decide
        have hlate : ¬ timeMax + 1 ≤ now := by omega
        simp only [hpos, if_false, Except.map, hlate]
        cases d.get key with
        | none => rfl
        | some encoded => rfl
      | some expiryText =>
        dsimp only
        cases stol expiryText with
        | error fault => rfl
        | ok expiry =>
          have hexpired : expiry - (atTime now).now ≤ 0 ↔ expiry ≤ now := sub_nonpos
          simp only [Except.map, hexpired]
          split
          · rfl
          · cases d.get key with
            | none => rfl
            | some encoded => rfl

/-! ## What two entries show -/

theorem le_timeMax_of_stol {text : List Char} {n : ℤ} (h : stol text = .ok n) :
    n ≤ timeMax := by
  unfold stol at h
  split at h
  · cases h
  · split at h
    · rename_i hrange
      rw [← Except.ok.inj h]
      exact hrange.2
    · cases h

theorem DiskItem.expires_le {item : DiskItem} {expiry : ℤ} (h : item.expires = .ok expiry) :
    expiry ≤ timeMax + 1 := by
  unfold DiskItem.expires at h
  split at h
  · exact (Except.ok.inj h).ge
  · exact (le_timeMax_of_stol h).trans (by omega)

/-- What is shown at a time goes on being shown until its deadline. -/
theorem DiskItem.shows_of_le (item : DiskItem) {first t : ℤ} (ht : first ≤ t) :
    item.shows t = (item.shows first).map fun shown => shown.filter fun s => t < s.2 := by
  unfold DiskItem.shows
  cases item.expires with
  | error fault => rfl
  | ok expiry =>
    simp only [Except.map]
    by_cases hlater : expiry ≤ t
    · have hlater' : ¬ t < expiry := not_lt.mpr hlater
      by_cases hfirst : expiry ≤ first
      · simp [hlater, hfirst]
      · cases item.text with
        | none => simp [hlater]
        | some text => simp [hlater, hlater', hfirst, Option.filter]
    · have hfirst : ¬ expiry ≤ first := fun h => hlater (h.trans ht)
      cases item.text with
      | none => simp [hlater, hfirst]
      | some text => simp [hlater, hfirst, not_le.mp hlater, Option.filter]

/-- What is shown with a deadline is no longer shown at the deadline. -/
theorem DiskItem.shows_at_expiry {item : DiskItem} {first expiry : ℤ} {text : List Char}
    (h : item.shows first = .ok (some (text, expiry))) :
    first < expiry ∧ expiry ≤ timeMax + 1 ∧ item.shows expiry = .ok none := by
  unfold DiskItem.shows at h
  cases hexpires : item.expires with
  | error fault =>
    rw [hexpires] at h
    cases h
  | ok expiry' =>
    rw [hexpires] at h
    simp only [Except.map, Except.ok.injEq] at h
    split at h
    · cases h
    · rename_i hlive
      obtain ⟨text', -, heq⟩ := Option.map_eq_some_iff.mp h
      obtain ⟨rfl, rfl⟩ := Prod.mk.inj heq
      refine ⟨not_le.mp hlive, DiskItem.expires_le hexpires, ?_⟩
      unfold DiskItem.shows
      rw [hexpires]
      simp [Except.map]

/-- Readers that make the same of two entries are shown the same text. -/
theorem text_eq_of_diskAnswer {item item' : DiskItem} {t : ℤ}
    (h : diskAnswer t item (@asData Obj) = diskAnswer t item' asData) :
    (item.shows t).map (Option.map Prod.fst) = (item'.shows t).map (Option.map Prod.fst) := by
  unfold diskAnswer at h
  cases hshows : item.shows t with
  | error fault =>
    cases hshows' : item'.shows t with
    | error fault' => simpa [hshows, hshows', Except.map] using h
    | ok shown' => simp [hshows, hshows', Except.map] at h
  | ok shown =>
    cases hshows' : item'.shows t with
    | error fault' => simp [hshows, hshows', Except.map] at h
    | ok shown' =>
      simp only [hshows, hshows', Except.map, Except.ok.injEq] at h ⊢
      cases shown with
      | none =>
        cases shown' with
        | none => rfl
        | some s' => simp [asData] at h
      | some s =>
        cases shown' with
        | none => simp [asData] at h
        | some s' => simpa [asData] using h

/-- **Value and expiry.** Two entries show the same text at every time from one on iff they
show at that time the same text with the same deadline. -/
theorem shows_eq_iff (Obj : Type) {item item' : DiskItem} {first : ℤ}
    (hfirst : first ≤ timeMax) :
    (∀ t, first ≤ t → t ≤ timeMax → ∀ decoder : List Char → Option (Held Obj),
        diskAnswer t item decoder = diskAnswer t item' decoder) ↔
      item.shows first = item'.shows first := by
  constructor
  · intro h
    have hsame : ∀ t, first ≤ t → t ≤ timeMax →
        (item.shows t).map (Option.map Prod.fst) = (item'.shows t).map (Option.map Prod.fst) :=
      fun t hlow hhigh => text_eq_of_diskAnswer (h t hlow hhigh asData)
    -- a text that expires first is no longer shown when the other one still is
    have hearlier : ∀ {a b : DiskItem} {text : List Char} {e e' : ℤ},
        a.shows first = .ok (some (text, e)) → b.shows first = .ok (some (text, e')) →
        (∀ t, first ≤ t → t ≤ timeMax → (a.shows t).map (Option.map Prod.fst) =
          (b.shows t).map (Option.map Prod.fst)) → ¬ e < e' := by
      intro a b text e e' ha hb hab hlt
      obtain ⟨hlive, -, hover⟩ := DiskItem.shows_at_expiry ha
      obtain ⟨-, hlast, -⟩ := DiskItem.shows_at_expiry hb
      have hat := hab e hlive.le (by omega)
      rw [hover, b.shows_of_le hlive.le, hb] at hat
      simp [Except.map, Option.filter, hlt] at hat
    have hnow := hsame first le_rfl hfirst
    cases hshows : item.shows first with
    | error fault =>
      cases hshows' : item'.shows first with
      | error fault' => simpa [hshows, hshows', Except.map] using hnow
      | ok shown' => simp [hshows, hshows', Except.map] at hnow
    | ok shown =>
      cases hshows' : item'.shows first with
      | error fault' => simp [hshows, hshows', Except.map] at hnow
      | ok shown' =>
        simp only [hshows, hshows', Except.map, Except.ok.injEq] at hnow
        cases shown with
        | none =>
          cases shown' with
          | none => rfl
          | some s' => simp at hnow
        | some s =>
          cases shown' with
          | none => simp at hnow
          | some s' =>
            obtain ⟨text, e⟩ := s
            obtain ⟨text', e'⟩ := s'
            obtain rfl : text = text' := by simpa using hnow
            have hle := hearlier hshows hshows' hsame
            have hge := hearlier hshows' hshows fun t hlow hhigh => (hsame t hlow hhigh).symm
            rw [le_antisymm (not_lt.mp hge) (not_lt.mp hle)]
  · intro h t hlow _ decoder
    unfold diskAnswer
    rw [item.shows_of_le hlow, item'.shows_of_le hlow, h]

/-! ## When no read can tell two caches apart -/

section

variable {now : ℤ} {memory memory' : Option (MemoryTier Obj)} {disk disk' : Option DiskCache}
  {key : List Char}

/-- A reader that makes nothing of a text on disk sees what the memory tier answers. -/
theorem answer_eq_of_reads {value value' : Option (Held Obj)} {item item' : DiskItem}
    (h : (match value with
        | some v => .ok (some v)
        | none => diskAnswer now item fun _ => none) =
      (match value' with
        | some v => .ok (some v)
        | none => diskAnswer now item' fun _ => none : Except Fault (Option (Held Obj)))) :
    value = value' := by
  have hsilent : ∀ (item : DiskItem) (v : Held Obj),
      diskAnswer now item (fun _ => none) ≠ .ok (some v) := by
    intro item v
    unfold diskAnswer
    cases item.shows now with
    | error fault => simp [Except.map]
    | ok shown => simp [Except.map]
  cases value with
  | none =>
    cases value' with
    | none => rfl
    | some v => exact absurd h (hsilent item v)
  | some v =>
    cases value' with
    | none => exact absurd h.symm (hsilent item' v)
    | some v' => exact Option.some.inj (Except.ok.inj h) ▸ rfl

/-- **No later read of a key tells two caches apart** iff the memory tiers answer the same at
every later time, and the disk tiers show the same from when they are silent on. -/
theorem reads_eq_iff :
    (∀ t, now ≤ t → t ≤ timeMax → ∀ decoder,
        ((⟨true, memory', disk'⟩ : DefaultCache Obj).get (atTime t) key decoder).2.1 =
          ((⟨true, memory, disk⟩ : DefaultCache Obj).get (atTime t) key decoder).2.1) ↔
      (∀ t, now ≤ t → t ≤ timeMax → answer t memory' key = answer t memory key) ∧
      (silentFrom now memory key ≤ timeMax →
        (diskItem disk' key).shows (silentFrom now memory key) =
          (diskItem disk key).shows (silentFrom now memory key)) := by
  constructor
  · intro h
    have hanswers : ∀ t, now ≤ t → t ≤ timeMax →
        answer t memory' key = answer t memory key := by
      intro t hlow hhigh
      have hread := h t hlow hhigh fun _ => none
      rw [get_result _ _ hhigh, get_result _ _ hhigh] at hread
      exact answer_eq_of_reads hread
    refine ⟨hanswers, fun hfirst => (shows_eq_iff Obj hfirst).mp fun t hlow hhigh decoder => ?_⟩
    have ht := (le_silentFrom now memory key).trans hlow
    have hread := h t ht hhigh decoder
    rw [get_result _ _ hhigh, get_result _ _ hhigh, hanswers t ht hhigh,
      (answer_eq_none_iff memory key ht).mpr hlow] at hread
    exact hread
  · rintro ⟨hanswers, hshows⟩ t hlow hhigh decoder
    rw [get_result _ _ hhigh, get_result _ _ hhigh, hanswers t hlow hhigh]
    cases hanswer : answer t memory key with
    | some value => rfl
    | none =>
      have hsilent := (answer_eq_none_iff memory key hlow).mp hanswer
      have hfirst := hsilent.trans hhigh
      exact (shows_eq_iff Obj hfirst).mpr (hshows hfirst) t hsilent hhigh decoder

/-- The byte vector `Get` tells no more than the other one. -/
theorem getData_eq_of_get {c c' : DefaultCache Obj} {t : ℤ}
    (h : ∀ decoder, (c'.get (atTime t) key decoder).2.1 = (c.get (atTime t) key decoder).2.1) :
    (c'.getData (atTime t) key).2.1 = (c.getData (atTime t) key).2.1 :=
  congrArg (Except.bind · castData) (h asData)

end

end OlpEdgeSdk.Analysis.DefaultCache

import Mathlib.Algebra.Order.Ring.Int
import OlpEdgeSdk.Base.Runs
import OlpEdgeSdk.Model.DiskCacheSizeLimit

/-!
# The size limit and the size of the files

The counter follows the files as long as every call that takes bytes from the directory is a
deletion that succeeds with its size read, and every call that adds some is an append that
succeeds. What the code does not mirror is found step by step: a file that is made empty or
replaced while it holds something, a deletion or an append that fails, an append to a file that
has left the directory.
-/

set_option autoImplicit false

namespace OlpEdgeSdk.Analysis.SizeLimit

open OlpEdgeSdk.Base OlpEdgeSdk.Model DiskCacheSizeLimit

variable {e e' : DiskCacheSizeLimit}

/-- The counter is the size of the files, no deletion takes more from it than there is, and the
disk tier refuses a value exactly if the files have reached the maximum. -/
structure Accounts (e : DiskCacheSizeLimit) : Prop where
  size_eq : e.size.toNat = e.files.total
  delete_le : ∀ f, e.files.amount f ≤ e.size.toNat
  refuses_iff : ∀ maxSize, maxSize ≠ -1 →
    (refusesPut (some e) maxSize = true ↔ maxSize.toNat ≤ e.files.total)

theorem accounts_iff : Accounts e ↔ e.totalSize.toNat = e.files.total := by
  refine ⟨Accounts.size_eq, fun h => ⟨h, fun f => ?_, fun maxSize hmax => ?_⟩⟩
  · rw [size, h]
    exact e.files.amount_le_total f
  · rw [← h]
    simp only [refusesPut, hmax, ne_eq, not_false_eq_true, true_and, ge_iff_le, decide_eq_true_eq]
    exact UInt64.le_iff_toNat_le

/-- Every path that is still written to is one of the directory. -/
def Linked (e : DiskCacheSizeLimit) : Prop :=
  ∀ f, WritableFile.path f ∈ e.writables → ∃ n, e.files.find f = some n

/-! ## Construction -/

/-- The constructor reads the sizes of all files with something in them, and they fit into the
counter. -/
def ReadsAll (files : SortedMap (List Char) ℕ) (listed : Bool) (sizeRead : List Char → Bool) :
    Prop :=
  files.total < 2 ^ 64 ∧ ∀ f n, files.find f = some n → (listed && sizeRead f) = false → n = 0

theorem foldl_sizes (sizeRead : List Char → Bool) (children : List (List Char × ℕ))
    (total : UInt64) :
    (children.foldl (fun total child =>
        if sizeRead child.1 then total + .ofNat child.2 else total) total).toNat =
      (total.toNat +
        ((children.filter fun child => sizeRead child.1).map Prod.snd).sum) % 2 ^ 64 := by
  induction children generalizing total with
  | nil =>
    have hlt := total.toNat_lt
    simp only [List.foldl_nil, List.filter_nil, List.map_nil, List.sum_nil]
    omega
  | cons child children ih =>
    rw [List.foldl_cons, ih, List.filter_cons]
    cases sizeRead child.1 with
    | true =>
      simp only [if_true, List.map_cons, List.sum_cons, UInt64.toNat_add, UInt64.toNat_ofNat']
      omega
    | false => simp only [Bool.false_eq_true, if_false]

theorem accounts_construct (files : SortedMap (List Char) ℕ) (strict listed : Bool)
    (sizeRead : List Char → Bool) :
    Accounts (construct files strict listed sizeRead) ↔ ReadsAll files listed sizeRead := by
  have hread := files.total_filterKeys_le fun f => listed && sizeRead f
  have hcounter : (construct files strict listed sizeRead).totalSize.toNat =
      (files.filterKeys fun f => listed && sizeRead f).total % 2 ^ 64 := by
    cases listed with
    | true =>
      rw [construct, if_pos rfl, foldl_sizes]
      simp [SortedMap.total, SortedMap.filterKeys]
    | false => simp [construct, SortedMap.total, SortedMap.filterKeys]
  rw [accounts_iff, hcounter, ReadsAll, ← files.total_filterKeys_eq_iff]
  change _ = files.total ↔ _
  omega

theorem linked_construct (files : SortedMap (List Char) ℕ) (strict listed : Bool)
    (sizeRead : List Char → Bool) : Linked (construct files strict listed sizeRead) := by
  intro f hf
  cases hf

/-! ## Steps -/

/-- A new file is not one that there already is with something in it. -/
def OpensEmpty (e : DiskCacheSizeLimit) (f : List Char) (ok : Bool) : Prop :=
  ok = true → (e.enforceStrictDataSave = true ∨ isLogFile f = some false) → e.files.amount f = 0

/-- What is appended arrives in a file of the directory, and the counter can take it. -/
def AppendsInside (e : DiskCacheSizeLimit) (size : UInt64) (ok : Bool) : WritableFile → Prop
  | .null => True
  | .path _ => if ok then e.files.total + size.toNat < 2 ^ 64 else size = 0
  | .unlinked => size = 0

/-- The condition under which a call changes the counter and the files alike. -/
def Balanced (e : DiskCacheSizeLimit) : Event → Prop
  | .newWritableFile f ok => OpensEmpty e f ok
  | .append i size ok => ∀ file ∈ e.writables[i]?, AppendsInside e size ok file
  | .deleteFile f sizeRead ok => sizeRead = ok ∨ e.files.amount f = 0
  | .renameFile s t ok =>
    ok = true → s ≠ t → (e.files.find s).isSome = true → e.files.amount t = 0

theorem linked_envNewWritableFile (h : Linked e) (f : List Char) (ok : Bool) :
    Linked (envNewWritableFile e f ok).1 := by
  rw [envNewWritableFile]
  split
  · intro g hg
    simp only [List.mem_append, List.mem_singleton, WritableFile.path.injEq] at hg
    simp only [SortedMap.find_insert]
    split
    · exact ⟨0, rfl⟩
    · next hne => exact h g (hg.resolve_right hne)
  · exact h

theorem linked_step (h : Linked e) {event : Event} (hstep : step e event = some e') :
    Linked e' := by
  cases event with
  | newWritableFile f ok =>
    cases hstep
    rw [newWritableFile]
    split
    · exact linked_envNewWritableFile h f ok
    · split
      · exact h
      · exact linked_envNewWritableFile h f ok
      · intro g hg
        simp only [List.mem_append, List.mem_singleton, reduceCtorEq, or_false] at hg
        exact h g hg
  | append i size ok =>
    obtain ⟨file, hfile, rfl⟩ := Option.map_eq_some_iff.mp hstep
    cases file with
    | null => exact h
    | path f =>
      intro g hg
      obtain ⟨n, hn⟩ := h g hg
      simp only
      split
      · rw [SortedMap.find_insert]
        split
        · exact ⟨_, rfl⟩
        · exact ⟨n, hn⟩
      · exact ⟨n, hn⟩
    | unlinked => exact h
  | deleteFile f sizeRead ok =>
    cases hstep
    rw [deleteFile]
    split
    · exact h
    · cases ok with
      | false => exact h
      | true =>
        intro g hg
        obtain ⟨file, hfile, hdelete⟩ := List.mem_map.mp hg
        cases file with
        | null => cases hdelete
        | unlinked => cases hdelete
        | path f' =>
          rw [WritableFile.delete] at hdelete
          split at hdelete
          · cases hdelete
          · next hne =>
            cases hdelete
            simp only [if_true, SortedMap.find_erase, hne, if_false]
            exact h g hfile
  | renameFile s t ok =>
    cases hstep
    rw [renameFile]
    split
    · exact h
    · cases ok with
      | false => exact h
      | true =>
        intro g hg
        obtain ⟨file, hfile, hrename⟩ := List.mem_map.mp hg
        simp only [if_true, SortedMap.find_insert, SortedMap.find_erase]
        cases file with
        | null => cases hrename
        | unlinked => cases hrename
        | path f' =>
          rw [WritableFile.rename] at hrename
          split at hrename
          · cases hrename
            exact ⟨_, if_pos rfl⟩
          · split at hrename
            · cases hrename
            · next hs ht =>
              cases hrename
              rw [if_neg ht, if_neg hs]
              exact h g hfile

theorem accounts_envNewWritableFile (h : Accounts e) (f : List Char) (ok : Bool) :
    Accounts (envNewWritableFile e f ok).1 ↔ (ok = true → e.files.amount f = 0) := by
  have hsize := accounts_iff.mp h
  rw [accounts_iff, envNewWritableFile]
  cases ok with
  | false => simpa using hsize
  | true =>
    have htotal := e.files.total_insert f 0
    simp only [if_true, true_implies, hsize]
    omega

theorem accounts_newWritableFile (h : Accounts e) (f : List Char) (ok : Bool) :
    Accounts (newWritableFile e f ok).1 ↔ OpensEmpty e f ok := by
  rw [newWritableFile, OpensEmpty]
  cases hstrict : e.enforceStrictDataSave with
  | true => simpa using accounts_envNewWritableFile h f ok
  | false =>
    simp only [Bool.false_eq_true, if_false, false_or]
    cases hlog : isLogFile f with
    | none => simpa using h
    | some isLog =>
      cases isLog with
      | false => simpa using accounts_envNewWritableFile h f ok
      | true =>
        have hsize := accounts_iff.mp h
        apply iff_of_true
        · exact accounts_iff.mpr hsize
        · simp

theorem accounts_append (h : Accounts e) {i : ℕ} {size : UInt64} {ok : Bool}
    (hstep : append e i size ok = some e') :
    Accounts e' ↔ ∀ file ∈ e.writables[i]?, AppendsInside e size ok file := by
  obtain ⟨file, hfile, rfl⟩ := Option.map_eq_some_iff.mp hstep
  have hsize := accounts_iff.mp h
  have hlt := e.totalSize.toNat_lt
  have hlt' := size.toNat_lt
  have hzero : size = 0 ↔ size.toNat = 0 := UInt64.toNat_inj.symm
  have hthere : (∀ file ∈ e.writables[i]?, AppendsInside e size ok file) ↔
      AppendsInside e size ok file := by
    rw [hfile]
    simp
  rw [hthere, accounts_iff]
  cases file with
  | null => exact iff_of_true hsize trivial
  | unlinked =>
    simp only [AppendsInside, UInt64.toNat_add, hzero]
    omega
  | path f =>
    have htotal := e.files.total_insert f (e.files.amount f + size.toNat)
    simp only [AppendsInside, UInt64.toNat_add]
    cases ok with
    | true =>
      simp only [if_true]
      omega
    | false =>
      simp only [Bool.false_eq_true, if_false, hzero]
      omega

theorem accounts_deleteFile (h : Accounts e) (f : List Char) (sizeRead ok : Bool) :
    Accounts (deleteFile e f sizeRead ok) ↔ sizeRead = ok ∨ e.files.amount f = 0 := by
  have hsize := accounts_iff.mp h
  have hlt := e.totalSize.toNat_lt
  have herase := e.files.total_erase f
  rw [deleteFile]
  cases hfind : e.files.find f with
  | none =>
    refine iff_of_true h (Or.inr ?_)
    rw [SortedMap.amount, hfind, Option.getD_none]
  | some n =>
    have hamount : e.files.amount f = n := by
      rw [SortedMap.amount, hfind, Option.getD_some]
    rw [accounts_iff]
    rw [hamount] at herase ⊢
    cases sizeRead <;> cases ok
    · simpa using hsize
    · simp only [Bool.false_eq_true, if_false, if_true, false_or]
      omega
    · simp only [Bool.false_eq_true, if_false, if_true, UInt64.toNat_sub, UInt64.toNat_ofNat',
        reduceCtorEq, false_or]
      omega
    · simp only [if_true, UInt64.toNat_sub, UInt64.toNat_ofNat', true_or, iff_true]
      omega

theorem accounts_renameFile (h : Accounts e) (s t : List Char) (ok : Bool) :
    Accounts (renameFile e s t ok) ↔
      (ok = true → s ≠ t → (e.files.find s).isSome = true → e.files.amount t = 0) := by
  have hsize := accounts_iff.mp h
  rw [renameFile]
  cases hfind : e.files.find s with
  | none => simpa using h
  | some n =>
    cases ok with
    | false => simpa using h
    | true =>
      have herase := e.files.total_erase s
      have hinsert := (e.files.erase s).total_insert t n
      have hamount : e.files.amount s = n := by
        rw [SortedMap.amount, hfind, Option.getD_some]
      rw [accounts_iff]
      simp only [if_true, Option.isSome_some, true_implies]
      by_cases hst : s = t
      · have hgone : (e.files.erase s).amount t = 0 := by
          rw [SortedMap.amount, SortedMap.find_erase, if_pos hst.symm, Option.getD_none]
        simp only [hst, ne_eq, not_true_eq_false, false_implies, iff_true]
        rw [← hst] at hinsert hgone ⊢
        omega
      · rw [SortedMap.amount_erase_of_ne _ (Ne.symm hst)] at hinsert
        simp only [ne_eq, hst, not_false_eq_true, true_implies]
        omega

/-- **One call** keeps the account exactly if it is balanced. -/
theorem accounts_step (h : Accounts e) {event : Event}
    (hstep : step e event = some e') : Accounts e' ↔ Balanced e event := by
  cases event with
  | newWritableFile f ok =>
    cases hstep
    exact accounts_newWritableFile h f ok
  | append i size ok => exact accounts_append h hstep
  | deleteFile f sizeRead ok =>
    cases hstep
    exact accounts_deleteFile h f sizeRead ok
  | renameFile s t ok =>
    cases hstep
    exact accounts_renameFile h s t ok

theorem balanced_of_step_eq_none {event : Event} (hstep : step e event = none) :
    Balanced e event := by
  cases event with
  | newWritableFile f ok => cases hstep
  | append i size ok =>
    intro file hfile
    rw [step, append, Option.mem_def.mp hfile] at hstep
    cases hstep
  | deleteFile f sizeRead ok => cases hstep
  | renameFile s t ok => cases hstep

/-! ## Runs -/

/-- Appending never brings a file back that has left the directory. -/
theorem linked_of_runFrom {files : SortedMap (List Char) ℕ} {strict listed : Bool}
    {sizeRead : List Char → Bool} {events : List Event}
    (hrun : runFrom step (construct files strict listed sizeRead) events = some e) : Linked e :=
  invariant_of_steps Linked (fun _ _ _ h hstep => linked_step h hstep) hrun
    (linked_construct files strict listed sizeRead)

/-- **The size accounting.** For every directory that the limit is constructed over and every
sequence of calls with any outcomes: the counter is the size of the files, without wrapping, and
so the disk tier refuses a value exactly if the files have reached the maximum, in all states, if
and only if the constructor reads all sizes and every call is balanced.
SOURCE: DiskCacheSizeLimit.h:86-204, DiskCacheSizeLimit.cpp:33-44, DiskCache.cpp:249-251 -/
theorem sizeLimit_accounts (files : SortedMap (List Char) ℕ) (strict listed : Bool)
    (sizeRead : List Char → Bool) (events : List Event) :
    (∀ before, before <+: events → ∀ e,
        runFrom step (construct files strict listed sizeRead) before = some e → Accounts e) ↔
      ReadsAll files listed sizeRead ∧
        Along step Balanced (construct files strict listed sizeRead) events := by
  have hruns : Accounts (construct files strict listed sizeRead) →
      ((∀ before, before <+: events → ∀ e,
          runFrom step (construct files strict listed sizeRead) before = some e → Accounts e) ↔
        Along step Balanced (construct files strict listed sizeRead) events) := fun hstart =>
    forall_before_iff_along (fun _ => True) Accounts (fun _ _ _ _ _ => trivial)
      (fun _ _ _ _ hgood hstep => accounts_step hgood hstep)
      (fun _ _ _ => balanced_of_step_eq_none) trivial hstart events
  rw [← accounts_construct files strict]
  constructor
  · intro hall
    have hstart := hall [] events.nil_prefix _ rfl
    exact ⟨hstart, (hruns hstart).mp hall⟩
  · exact fun h => (hruns h.1).mpr h.2

/-- The second `CURRENT` replaces the first one, and its bytes are counted twice. -/
theorem rename_counted_twice :
    let current := "/d/CURRENT".toList
    let temporary := "/d/000002.dbtmp".toList
    let e := construct .empty true true fun _ => true
    let events : List Event := [.newWritableFile current true, .append 0 16 true,
      .newWritableFile temporary true, .append 1 16 true, .renameFile temporary current true]
    ∃ e', runFrom step e events = some e' ∧ e'.size = 32 ∧ e'.files.total = 16 ∧
      ¬ Accounts e' := by
  intro current temporary e events
  refine ⟨_, rfl, by decide, by decide +kernel, fun haccounts => ?_⟩
  have hsize := haccounts.size_eq
  revert hsize
  decide

end OlpEdgeSdk.Analysis.SizeLimit

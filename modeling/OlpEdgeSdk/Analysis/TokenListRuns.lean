import Mathlib.Algebra.GroupWithZero.Nat
import OlpEdgeSdk.Model.CancellationTokenList
import OlpEdgeSdk.Model.VersionedLayerClient

/-!
# Runs of the token list

The list is in the order of the ids after every run. `AddTask` puts its entry in behind those
of the id (`addTask_shape`) and `RemoveTask` takes the first one of the id out
(`removeTask_cases`); the rest of the list is as it was. `CancelAll` goes through a copy of the
ids, and without additions nothing is left for a second round (`cancelAll_ends`).
-/

set_option autoImplicit false

namespace OlpEdgeSdk.Analysis.TokenListRuns

open OlpEdgeSdk.Base OlpEdgeSdk.Model CancellationTokenList

variable {Token : Type*}

/-- The entries are in the order of their ids. -/
def Sorted (tasks : CancellationTokenList Token) : Prop := SortedBy Prod.fst tasks.tokenList

/-! ## One call -/

section Calls

variable {tasks : CancellationTokenList Token}

/-- **`AddTask`** puts the entry in behind those of its id. -/
theorem addTask_shape (h : Sorted tasks) (id : ℤ) (token : Token) : ∃ front back,
    tasks.tokenList = front ++ back ∧
      (addTask tasks id token).tokenList = front ++ (id, token) :: back ∧
      (∀ t ∈ front, t.1 ≤ id) ∧ ∀ t ∈ back, id < t.1 := by
  obtain ⟨front, back, hparts, hfront, hback, hpos⟩ := exists_upperBound h id
  refine ⟨front, back, hparts, ?_, hfront, hback⟩
  unfold addTask
  dsimp only
  rw [hpos, hparts, insertAt_length]

/-- **`RemoveTask`** takes the first entry of its id out, if there is one. -/
theorem removeTask_cases (h : Sorted tasks) (id : ℤ) :
    (∃ front token back, tasks.tokenList = front ++ (id, token) :: back ∧
        (∀ t ∈ front, t.1 < id) ∧ (removeTask tasks id).tokenList = front ++ back) ∨
      (id ∉ getTaskIdList tasks ∧ removeTask tasks id = tasks) := by
  rcases lookup_lowerBound h id with
    ⟨front, t, back, hparts, hid, hfront, hpos, hget⟩ | ⟨hnone, hother⟩
  · left
    obtain ⟨id, token⟩ := t
    obtain rfl : id = _ := hid
    refine ⟨front, token, back, hparts, hfront, ?_⟩
    have hin : front.length < tasks.tokenList.length := by
      rw [hparts, List.length_append, List.length_cons]
      omega
    unfold removeTask
    dsimp only
    rw [hget]
    dsimp only
    rw [if_neg (fun hne => hne rfl), hpos, eraseAt_rotate hin, hparts, eraseAt_length]
  · right
    refine ⟨hnone, ?_⟩
    unfold removeTask
    dsimp only
    split
    · rfl
    · next t hget => rw [if_pos (hother t hget)]

/-- One entry of the id is taken out and no other, and a list without one is left alone. -/
def RemovesOne (tasks tasks' : CancellationTokenList Token) (id : ℤ) : Prop :=
  (id ∉ getTaskIdList tasks ∧ tasks' = tasks) ∨
    ∃ front token back, tasks.tokenList = front ++ (id, token) :: back ∧
      tasks'.tokenList = front ++ back

theorem removeTask_shape (h : Sorted tasks) (id : ℤ) :
    RemovesOne tasks (removeTask tasks id) id := by
  rcases removeTask_cases h id with ⟨front, token, back, hparts, -, hremoved⟩ | hnone
  · exact Or.inr ⟨front, token, back, hparts, hremoved⟩
  · exact Or.inl hnone

theorem sorted_addTask (h : Sorted tasks) (id : ℤ) (token : Token) :
    Sorted (addTask tasks id token) := by
  obtain ⟨front, back, hparts, hadded, hfront, hback⟩ := addTask_shape h id token
  unfold Sorted at h ⊢
  rw [hparts] at h
  rw [hadded]
  exact sortedBy_insert h hfront fun t ht => (hback t ht).le

/-- One entry is taken out of the list, so it stays sorted. -/
theorem RemovesOne.sublist {tasks' : CancellationTokenList Token} {id : ℤ}
    (h : RemovesOne tasks tasks' id) : tasks'.tokenList.Sublist tasks.tokenList := by
  rcases h with ⟨-, rfl⟩ | ⟨front, token, back, hparts, hremoved⟩
  · exact List.Sublist.refl _
  · rw [hparts, hremoved]
    exact List.Sublist.append_left (List.sublist_cons_self _ _) front

theorem sorted_removeTask (h : Sorted tasks) (id : ℤ) : Sorted (removeTask tasks id) :=
  List.Pairwise.sublist (removeTask_shape h id).sublist h

end Calls

/-! ## Runs -/

/-- The calls that a list gets. -/
inductive Call (Token : Type*) where
  | addTask (id : ℤ) (token : Token)
  | removeTask (id : ℤ)

/-- What a call does. -/
def handle (tasks : CancellationTokenList Token) : Call Token → CancellationTokenList Token
  | .addTask id token => addTask tasks id token
  | .removeTask id => removeTask tasks id

/-- The list after a sequence of calls. -/
def runCalls (calls : List (Call Token)) : CancellationTokenList Token :=
  calls.foldl handle ⟨[]⟩

/-- How often a call adds the id. -/
def Call.additions (id : ℤ) : Call Token → ℕ
  | .addTask id' _ => if id' = id then 1 else 0
  | .removeTask _ => 0

/-- How often a call removes the id from the list it finds. -/
def Call.removals (tasks : CancellationTokenList Token) (id : ℤ) : Call Token → ℕ
  | .addTask _ _ => 0
  | .removeTask id' => if id' = id ∧ id ∈ getTaskIdList tasks then 1 else 0

/-- How often a sequence of calls adds the id. -/
def additions (id : ℤ) (calls : List (Call Token)) : ℕ := (calls.map (Call.additions id)).sum

/-- How often a sequence of calls finds the id and removes it. -/
def effectiveRemovals (id : ℤ) : CancellationTokenList Token → List (Call Token) → ℕ
  | _, [] => 0
  | tasks, call :: calls => call.removals tasks id + effectiveRemovals id (handle tasks call) calls

/-- How many entries the id has. -/
def entries (tasks : CancellationTokenList Token) (id : ℤ) : ℕ := (getTaskIdList tasks).count id

section Runs

variable {tasks : CancellationTokenList Token}

/-- The entries of an id in a list that is cut at another entry. -/
theorem entries_of_cut {front back : List (ℤ × Token)} {t : ℤ × Token}
    (h : tasks.tokenList = front ++ t :: back) (id : ℤ) :
    entries tasks id = entries ⟨front ++ back⟩ id + if t.1 = id then 1 else 0 := by
  unfold entries getTaskIdList
  rw [h, List.map_append, List.map_append, List.map_cons, List.count_append, List.count_append,
    List.count_cons, Nat.add_assoc]
  simp only [beq_iff_eq]

theorem sorted_handle (h : Sorted tasks) (call : Call Token) : Sorted (handle tasks call) := by
  cases call with
  | addTask id token => exact sorted_addTask h id token
  | removeTask id => exact sorted_removeTask h id

/-- **Step.** A call adds its entry or takes one out. -/
theorem entries_handle (h : Sorted tasks) (call : Call Token) (id : ℤ) :
    entries (handle tasks call) id + call.removals tasks id =
      entries tasks id + call.additions id := by
  cases call with
  | addTask id' token =>
    obtain ⟨front, back, hparts, hadded, -⟩ := addTask_shape h id' token
    have hcut := entries_of_cut hadded id
    rw [← hparts] at hcut
    exact hcut
  | removeTask id' =>
    show entries (removeTask tasks id') id + (if id' = id ∧ id ∈ getTaskIdList tasks then 1 else 0)
      = entries tasks id + 0
    rcases removeTask_shape h id' with ⟨hnone, hsame⟩ | ⟨front, token, back, hparts, hremoved⟩
    · rw [hsame, if_neg]
      rintro ⟨rfl, hin⟩
      exact hnone hin
    · have hlisted : id' ∈ getTaskIdList tasks := by
        rw [getTaskIdList, hparts, List.map_append]
        exact List.mem_append_right _ List.mem_cons_self
      have hcut := entries_of_cut hparts id
      rw [← hremoved] at hcut
      by_cases hid : id' = id
      · subst hid
        rw [if_pos ⟨rfl, hlisted⟩, hcut, if_pos rfl]
      · rw [if_neg fun hand => hid hand.1, hcut, if_neg hid]

/-- **Run.** An id has as many entries as it was added times less those it was removed. -/
theorem entries_foldl (h : Sorted tasks) (calls : List (Call Token)) (id : ℤ) :
    entries (calls.foldl handle tasks) id + effectiveRemovals id tasks calls =
      entries tasks id + additions id calls := by
  induction calls generalizing tasks with
  | nil => rfl
  | cons call calls ih =>
    have hstep := entries_handle h call id
    have hrest := ih (sorted_handle h call)
    rw [List.foldl_cons, effectiveRemovals, additions, List.map_cons, List.sum_cons]
    rw [additions] at hrest
    omega

theorem sorted_foldl (h : Sorted tasks) (calls : List (Call Token)) :
    Sorted (calls.foldl handle tasks) := by
  induction calls generalizing tasks with
  | nil => exact h
  | cons call calls ih => exact ih (sorted_handle h call)

end Runs

/-! ## `CancelAll` -/

section CancelAll

variable {removals : ℕ → List ℤ} {tasks left : CancellationTokenList Token}
  {run : CancelRun Token}

/-- What is left while `CancelAll` is on its way: a sorted list without an entry that was not
there, and with all those that `RemoveTask` is not called for. -/
structure Underway (removals : ℕ → List ℤ) (tasks left : CancellationTokenList Token) : Prop where
  sorted : Sorted left
  listed : ∀ t ∈ left.tokenList, t ∈ tasks.tokenList
  kept : ∀ t ∈ tasks.tokenList, (∀ n, t.1 ∉ removals n) → t ∈ left.tokenList

/-- A token of the id has been cancelled. -/
def CancelledId (tasks : CancellationTokenList Token) (run : CancelRun Token) (id : ℤ) : Prop :=
  ∃ token, (id, token) ∈ tasks.tokenList ∧ token ∈ run.cancelled

/-- An entry stays when another id is removed. -/
theorem mem_removeTask (h : Sorted tasks) {t : ℤ × Token} (ht : t ∈ tasks.tokenList) {id : ℤ}
    (hid : t.1 ≠ id) : t ∈ (removeTask tasks id).tokenList := by
  rcases removeTask_shape h id with ⟨-, hsame⟩ | ⟨front, token, back, hparts, hremoved⟩
  · rwa [hsame]
  · rw [hparts, List.mem_append, List.mem_cons] at ht
    rw [hremoved, List.mem_append]
    rcases ht with hfront | rfl | hback
    · exact Or.inl hfront
    · exact absurd rfl hid
    · exact Or.inr hback

/-- **Step.** A call of `RemoveTask` keeps what `CancelAll` relies on. -/
theorem underway_removeTask (h : Underway removals tasks left) {id : ℤ} {n : ℕ}
    (hid : id ∈ removals n) : Underway removals tasks (removeTask left id) where
  sorted := sorted_removeTask h.sorted id
  listed := by
    intro t ht
    exact h.listed t ((removeTask_shape h.sorted id).sublist.subset ht)
  kept := by
    intro t ht hnever
    apply mem_removeTask h.sorted (h.kept t ht hnever)
    rintro rfl
    exact hnever n hid

theorem underway_foldl_removeTask (h : Underway removals tasks left) {n : ℕ} {ids : List ℤ}
    (hids : ids ⊆ removals n) : Underway removals tasks (ids.foldl removeTask left) := by
  induction ids generalizing left with
  | nil => exact h
  | cons id ids ih =>
    rw [List.cons_subset] at hids
    exact ih (underway_removeTask h hids.1) hids.2

theorem underway_removed (h : Underway removals tasks run.tasks) :
    Underway removals tasks (removed removals run).tasks :=
  underway_foldl_removeTask h (List.Subset.refl _)

/-- The ids that nothing removes are still listed. -/
theorem mem_getTaskIdList (h : Underway removals tasks left) {id : ℤ}
    (hid : id ∈ getTaskIdList tasks) (hnever : ∀ n, id ∉ removals n) :
    id ∈ getTaskIdList left := by
  obtain ⟨t, ht, rfl⟩ := List.mem_map.mp hid
  exact List.mem_map_of_mem (h.kept t ht hnever)

/-- What looking an id up comes to: the token of an entry of the id is cancelled, or there is
no entry. -/
theorem cancelTask_cases (h : Sorted (removed removals run).tasks) (id : ℤ) :
    (∃ token, (id, token) ∈ (removed removals run).tasks.tokenList ∧
        cancelTask removals run id = { removed removals run with
          cancelled := run.cancelled ++ [token] }) ∨
      (id ∉ getTaskIdList (removed removals run).tasks ∧
        cancelTask removals run id = removed removals run) := by
  rcases lookup_lowerBound h id with
    ⟨front, t, back, hparts, hid, -, -, hget⟩ | ⟨hnone, hother⟩
  · left
    obtain ⟨id, token⟩ := t
    obtain rfl : id = _ := hid
    refine ⟨token, ?_, ?_⟩
    · rw [hparts]
      exact List.mem_append_right _ List.mem_cons_self
    · unfold cancelTask
      dsimp only
      rw [hget]
      dsimp only
      rw [if_neg fun hne => hne rfl]
      rfl
  · right
    refine ⟨hnone, ?_⟩
    unfold cancelTask
    dsimp only
    split
    · rfl
    · next t hget => rw [if_pos (hother t hget)]

/-- **Step.** An id that nothing removes has a token cancelled when its turn comes, and no token
cancelled is taken back. -/
theorem cancelTask_step (h : Underway removals tasks run.tasks) (id : ℤ) :
    Underway removals tasks (cancelTask removals run id).tasks ∧
      run.cancelled ⊆ (cancelTask removals run id).cancelled ∧
      (id ∈ getTaskIdList tasks → (∀ n, id ∉ removals n) →
        CancelledId tasks (cancelTask removals run id) id) := by
  have hremoved := underway_removed h
  rcases cancelTask_cases hremoved.sorted id with ⟨token, htoken, hcancel⟩ | ⟨hnone, hcancel⟩
  · rw [hcancel]
    refine ⟨hremoved, List.subset_append_left _ _, ?_⟩
    intro _ _
    exact ⟨token, hremoved.listed _ htoken, List.mem_append_right _ (List.mem_singleton_self _)⟩
  · rw [hcancel]
    refine ⟨hremoved, List.Subset.refl _, ?_⟩
    intro hlisted hnever
    exact absurd (mem_getTaskIdList hremoved hlisted hnever) hnone

/-- **Run.** So have all ids of the list copied. -/
theorem foldl_cancelTask (run : CancelRun Token) (h : Underway removals tasks run.tasks)
    (ids : List ℤ) :
    Underway removals tasks (ids.foldl (cancelTask removals) run).tasks ∧
      run.cancelled ⊆ (ids.foldl (cancelTask removals) run).cancelled ∧
      ∀ id ∈ ids, id ∈ getTaskIdList tasks → (∀ n, id ∉ removals n) →
        CancelledId tasks (ids.foldl (cancelTask removals) run) id := by
  induction ids generalizing run with
  | nil => exact ⟨h, List.Subset.refl _, by simp⟩
  | cons id ids ih =>
    obtain ⟨hunderway, hsubset, hcancelled⟩ := cancelTask_step h id
    obtain ⟨hend, hmore, hrest⟩ := ih _ hunderway
    refine ⟨hend, List.Subset.trans hsubset hmore, ?_⟩
    rw [List.forall_mem_cons]
    refine ⟨?_, hrest⟩
    intro hlisted hnever
    obtain ⟨token, hentry, htoken⟩ := hcancelled hlisted hnever
    exact ⟨token, hentry, hmore htoken⟩

/-- A binary search in the ids copied tells whether an id is among them. -/
theorem isListed_iff {idList : List ℤ} (h : SortedBy (fun id => id) idList) (t : ℤ × Token) :
    isListed idList t = true ↔ t.1 ∈ idList := by
  unfold isListed
  rcases lookup_lowerBound h t.1 with
    ⟨front, id, back, hparts, hid, -, -, hget⟩ | ⟨hnone, hother⟩
  · rw [hget, hparts]
    apply iff_of_true (decide_eq_true hid.symm)
    rw [← hid]
    exact List.mem_append_right _ List.mem_cons_self
  · rw [List.map_id'' (fun _ => rfl)] at hnone
    split
    · exact iff_of_false Bool.false_ne_true hnone
    · next id hget =>
      apply iff_of_false _ hnone
      rw [decide_eq_true_eq]
      exact (hother id hget).symm

/-- A list of ids copied erases all their entries. -/
theorem eraseListed_eq_nil {idList : List ℤ} (h : SortedBy (fun id => id) idList)
    (hall : ∀ id ∈ getTaskIdList left, id ∈ idList) : (eraseListed idList left).tokenList = [] := by
  unfold eraseListed
  dsimp only
  rw [eraseRange_removeIf, List.filter_eq_nil_iff]
  intro t ht
  have hlisted := (isListed_iff h t).mpr (hall t.1 (List.mem_map_of_mem ht))
  rw [hlisted]
  exact Bool.false_ne_true

theorem sortedBy_getTaskIdList (h : Sorted left) : SortedBy (fun id => id) (getTaskIdList left) :=
  List.pairwise_map.mpr h

theorem underway_refl (h : Sorted tasks) : Underway removals tasks tasks where
  sorted := h
  listed := by
    intro t ht
    exact ht
  kept := by
    intro t ht _
    exact ht

/-- A round that finds no ids is the last one. -/
theorem cancelAll_of_no_ids (h : getTaskIdList (removed removals run).tasks = []) (rounds : ℕ) :
    cancelAll removals (rounds + 1) run = some (removed removals run) := by
  unfold cancelAll
  dsimp only
  rw [h]
  rfl

/-- A list that is empty stays so. -/
theorem getTaskIdList_removed_of_nil (h : run.tasks.tokenList = []) :
    getTaskIdList (removed removals run).tasks = [] := by
  have hsorted : Sorted run.tasks := by
    unfold Sorted
    rw [h]
    exact List.Pairwise.nil
  have hunderway : Underway removals run.tasks (removed removals run).tasks :=
    underway_removed (underway_refl hsorted)
  have hlisted := hunderway.listed
  rw [h] at hlisted
  rw [getTaskIdList, List.eq_nil_iff_forall_not_mem.mpr fun t ht => List.not_mem_nil (hlisted t ht)]
  rfl

/-- **`CancelAll`** ends in its second round at the latest, with the list empty and a token
cancelled for every id that was listed and that nothing else removed. -/
theorem cancelAll_ends (h : Sorted tasks) (rounds : ℕ) :
    ∃ run, cancelAll removals (rounds + 2) ⟨tasks, [], 0⟩ = some run ∧
      run.tasks.tokenList = [] ∧
      ∀ id ∈ getTaskIdList tasks, (∀ n, id ∉ removals n) → CancelledId tasks run id := by
  let copied := removed removals (⟨tasks, [], 0⟩ : CancelRun Token)
  let idList := getTaskIdList copied.tasks
  have hcopied : Underway removals tasks copied.tasks := underway_removed (underway_refl h)
  by_cases hempty : idList = []
  · refine ⟨copied, cancelAll_of_no_ids hempty (rounds + 1), List.map_eq_nil_iff.mp hempty, ?_⟩
    intro id hid hnever
    have hlisted : id ∈ idList := mem_getTaskIdList hcopied hid hnever
    rw [hempty] at hlisted
    cases hlisted
  · let run := removed removals (idList.foldl (cancelTask removals) copied)
    obtain ⟨hunderway, -, hcancelled⟩ :=
      foldl_cancelTask copied (underway_refl hcopied.sorted) idList
    have hrun : Underway removals copied.tasks run.tasks := underway_removed hunderway
    have hnil : (eraseListed idList run.tasks).tokenList = [] := by
      apply eraseListed_eq_nil (sortedBy_getTaskIdList hcopied.sorted)
      intro id hid
      obtain ⟨t, ht, rfl⟩ := List.mem_map.mp hid
      exact List.mem_map_of_mem (hrun.listed t ht)
    let next : CancelRun Token := { run with tasks := eraseListed idList run.tasks }
    have hsecond : getTaskIdList (removed removals next).tasks = [] :=
      getTaskIdList_removed_of_nil hnil
    have hround : cancelAll removals (rounds + 2) ⟨tasks, [], 0⟩ =
        cancelAll removals (rounds + 1) next := by
      have hsome : idList.isEmpty = false := by
        cases hlist : idList with
        | nil => exact absurd hlist hempty
        | cons _ _ => rfl
      rw [cancelAll]
      show (if idList.isEmpty then _ else _) = _
      rw [hsome]
      rfl
    refine ⟨_, hround.trans (cancelAll_of_no_ids hsecond rounds),
      List.map_eq_nil_iff.mp hsecond, ?_⟩
    intro id hid hnever
    have hlisted := mem_getTaskIdList hcopied hid hnever
    obtain ⟨token, hentry, htoken⟩ := hcancelled id hlisted hlisted hnever
    exact ⟨token, hcopied.listed _ hentry, htoken⟩

end CancelAll

/-! ## The ids alone -/

section Ids

variable {tasks : CancellationTokenList Token} {ids : List ℕ} {id : ℕ}

theorem takeWhile_dropWhile_append {front back : List ℕ} {p : ℕ → Bool}
    (hfront : ∀ a ∈ front, p a = true) (hback : ∀ a ∈ back, p a = false) :
    (front ++ back).takeWhile p = front ∧ (front ++ back).dropWhile p = back := by
  rw [List.takeWhile_append_of_pos hfront, List.dropWhile_append_of_pos hfront]
  cases back with
  | nil => exact ⟨List.append_nil front, rfl⟩
  | cons a back =>
    have ha : p a = false := hback a List.mem_cons_self
    rw [List.takeWhile_cons, List.dropWhile_cons, ha]
    exact ⟨List.append_nil front, rfl⟩

/-- What holds of the ids of entries holds of the numbers they are. -/
theorem forall_of_map_eq {entries : List (ℤ × Token)} {P : ℤ → Prop}
    (hids : ids.map (↑) = entries.map Prod.fst) (h : ∀ t ∈ entries, P t.1) :
    ∀ a ∈ ids, P (a : ℤ) := by
  intro a ha
  have hmem := List.mem_map_of_mem (f := ((↑) : ℕ → ℤ)) ha
  rw [hids] at hmem
  obtain ⟨t, ht, heq⟩ := List.mem_map.mp hmem
  rw [← heq]
  exact h t ht

/-- `AddTask` on the ids alone, as the operations of the versioned layer client have it. -/
theorem getTaskIdList_addTask (h : Sorted tasks) (hids : getTaskIdList tasks = ids.map (↑))
    (token : Token) :
    getTaskIdList (addTask tasks id token) = (VersionedLayerClient.addTask id ids).map (↑) := by
  obtain ⟨front, back, hparts, hadded, hfront, hback⟩ := addTask_shape h id token
  rw [getTaskIdList, hparts, List.map_append, eq_comm, List.map_eq_append_iff] at hids
  obtain ⟨idsFront, idsBack, rfl, hidsFront, hidsBack⟩ := hids
  have hlow : ∀ a ∈ idsFront, decide (a ≤ id) = true := by
    intro a ha
    have hle : (a : ℤ) ≤ id := forall_of_map_eq (P := (· ≤ (id : ℤ))) hidsFront hfront a ha
    exact decide_eq_true (Int.ofNat_le.mp hle)
  have hhigh : ∀ a ∈ idsBack, decide (a ≤ id) = false := by
    intro a ha
    have hlt : (id : ℤ) < a := forall_of_map_eq (P := ((id : ℤ) < ·)) hidsBack hback a ha
    exact decide_eq_false (not_le.mpr (Int.ofNat_lt.mp hlt))
  obtain ⟨htake, hdrop⟩ := takeWhile_dropWhile_append hlow hhigh
  rw [VersionedLayerClient.addTask, htake, hdrop, getTaskIdList, hadded, List.map_append,
    List.map_append, List.map_cons, List.map_cons, hidsFront, hidsBack]

/-- `RemoveTask` on the ids alone. -/
theorem getTaskIdList_removeTask (h : Sorted tasks) (hids : getTaskIdList tasks = ids.map (↑)) :
    getTaskIdList (removeTask tasks id) = (VersionedLayerClient.removeTask id ids).map (↑) := by
  rcases removeTask_cases h id with
    ⟨front, token, back, hparts, hfront, hremoved⟩ | ⟨hnone, hsame⟩
  · rw [getTaskIdList, hparts, List.map_append, eq_comm, List.map_eq_append_iff] at hids
    obtain ⟨idsFront, idsRest, rfl, hidsFront, hidsRest⟩ := hids
    rw [List.map_cons, List.map_eq_cons_iff] at hidsRest
    obtain ⟨id', idsBack, rfl, hid, hidsBack⟩ := hidsRest
    obtain rfl : id' = id := Int.ofNat_inj.mp hid
    have hlow : ∀ a ∈ idsFront, decide (a < id') = true := by
      intro a ha
      have hlt : (a : ℤ) < id' := forall_of_map_eq (P := (· < (id' : ℤ))) hidsFront hfront a ha
      exact decide_eq_true (Int.ofNat_lt.mp hlt)
    have htake : (idsFront ++ id' :: idsBack).takeWhile (fun a => decide (a < id')) =
        idsFront := by
      rw [List.takeWhile_append_of_pos hlow, List.takeWhile_cons, decide_eq_false (lt_irrefl id')]
      exact List.append_nil idsFront
    have hdrop : (idsFront ++ id' :: idsBack).dropWhile (fun a => decide (a < id')) =
        id' :: idsBack := by
      rw [List.dropWhile_append_of_pos hlow, List.dropWhile_cons, decide_eq_false (lt_irrefl id')]
      rfl
    rw [VersionedLayerClient.removeTask, hdrop]
    dsimp only
    rw [if_pos rfl, htake, getTaskIdList, hremoved, List.map_append, List.map_append, hidsFront,
      hidsBack]
  · have hother : VersionedLayerClient.removeTask id ids = ids := by
      unfold VersionedLayerClient.removeTask
      split
      · rfl
      · next task rest hdrop =>
        have hin : task ∈ ids := by
          apply (List.dropWhile_sublist fun a => decide (a < id)).subset
          rw [hdrop]
          exact List.mem_cons_self
        apply if_neg
        rintro rfl
        rw [hids] at hnone
        exact hnone (List.mem_map_of_mem hin)
    rw [hsame, hother, hids]

end Ids

/-! ## The list over its runs -/

/-- **The token list over every run**: sorted, with as many entries for each id as were added
less those removed, with calls of `RemoveTask` that take one entry of their id out, and a
`CancelAll` that cancels a token for each id and empties the list. -/
theorem runCalls_exact (calls : List (Call Token)) :
    Sorted (runCalls calls) ∧
      (∀ id, entries (runCalls calls) id =
        additions id calls - effectiveRemovals id ⟨[]⟩ calls) ∧
      (∀ id, effectiveRemovals id ⟨[]⟩ calls ≤ additions id calls) ∧
      (∀ id, RemovesOne (runCalls calls) (removeTask (runCalls calls) id) id) ∧
      ∀ (removals : ℕ → List ℤ) (rounds : ℕ), ∃ run,
        cancelAll removals (rounds + 2) ⟨runCalls calls, [], 0⟩ = some run ∧
        run.tasks.tokenList = [] ∧
        ∀ id ∈ getTaskIdList (runCalls calls), (∀ n, id ∉ removals n) →
          CancelledId (runCalls calls) run id := by
  have hempty : Sorted (⟨[]⟩ : CancellationTokenList Token) := List.Pairwise.nil
  have hsorted : Sorted (runCalls calls) := sorted_foldl hempty calls
  have hcount : ∀ id, entries (runCalls calls) id + effectiveRemovals id ⟨[]⟩ calls =
      additions id calls := by
    intro id
    have hrun := entries_foldl hempty calls id
    rw [runCalls, hrun]
    exact Nat.zero_add _
  refine ⟨hsorted, ?_, ?_, removeTask_shape hsorted, ?_⟩
  · intro id
    have hid := hcount id
    omega
  · intro id
    have hid := hcount id
    omega
  · intro removals rounds
    exact cancelAll_ends hsorted rounds

end OlpEdgeSdk.Analysis.TokenListRuns

import OlpEdgeSdk.Base.Entries
import OlpEdgeSdk.Base.Runs
import OlpEdgeSdk.Model.AutoFlushTasks

/-!
# Shutting down auto-flush

The ids of the background flushes stay apart, their tasks are in the collection and their tokens
in the map for as long as they should be. What goes wrong is a matter of order: a token that is
put in the map too late is never removed, a `Disable` that comes too early misses flushes.
-/

set_option autoImplicit false

namespace OlpEdgeSdk.Analysis.Shutdown

open OlpEdgeSdk.Base OlpEdgeSdk.Model AutoFlushController

/-! ## What a shutdown should bring -/

/-- No token is left of a flush whose callback and thread are done; every flush started before
`Disable` is cancelled or over; and once the future is ready, all of them are over. -/
structure Clean (s : Controller) : Prop where
  removed : ∀ (i id : ℕ) (cancelled : Bool),
    s.flushes[i]? = some (BackgroundFlush.flushing id (.registered cancelled) .returned) →
      s.cancelTokenMap.find id = none
  cancelled : ∀ i < s.disable.startedBefore, ∀ f : BackgroundFlush, s.flushes[i]? = some f →
    f.IsCancelled ∨ f.IsFinished
  completed : ∀ n, s.disable = .ready n → ∀ i < n, ∀ f : BackgroundFlush,
    s.flushes[i]? = some f → f.IsFinished

/-- The thread of a flush puts the token in the map before the callback removes it; `Disable`
finds a token for every flush that is not over; and its future does not find the collection
empty while a flush started before it has no id yet. -/
def InOrder (s : Controller) : ControllerEvent → Prop
  | .addCancelToken i => ∀ id, s.flushes[i]? ≠ some (BackgroundFlush.flushing id .inHand .returned)
  | .cancel => s.disable = .notCalled → ∀ f ∈ s.flushes, ¬ f.IsFinished →
      ∃ id cancelled, f = .flushing id (.registered cancelled) .pending
  | .completed => ∀ n, s.disable = .waiting n → s.backgroundTasksIds = [] →
      ∀ i < n, s.flushes[i]? ≠ some BackgroundFlush.spawned
  | _ => True

/-! ## The invariant -/

/-- The task of a flush is in the collection. -/
def IsTask : BackgroundFlush → Prop
  | .added _ => True
  | .flushing _ _ callback => callback = .pending ∨ callback = .called
  | .spawned => False

structure Consistent (s : Controller) : Prop where
  id_lt : ∀ (i : ℕ) (f : BackgroundFlush) (id : ℕ),
    s.flushes[i]? = some f → f.id? = some id → id < s.nextId
  id_inj : ∀ (i j : ℕ) (f g : BackgroundFlush) (id : ℕ),
    s.flushes[i]? = some f → s.flushes[j]? = some g → f.id? = some id → g.id? = some id → i = j
  tasks : ∀ (i : ℕ) (f : BackgroundFlush) (id : ℕ),
    s.flushes[i]? = some f → f.id? = some id → IsTask f → id ∈ s.backgroundTasksIds
  tokens : ∀ id i : ℕ, s.cancelTokenMap.find id = some i → ∃ cancelled callback,
    s.flushes[i]? = some (BackgroundFlush.flushing id (.registered cancelled) callback)
  registered : ∀ (i id : ℕ) (cancelled : Bool) (callback : CallbackPhase),
    s.flushes[i]? = some (BackgroundFlush.flushing id (.registered cancelled) callback) →
      callback ≠ .returned → s.cancelTokenMap.find id = some i
  started : s.disable.startedBefore ≤ s.flushes.length

/-- What a thread does to its own flush. -/
structure Replaces (s s' : Controller) (i : ℕ) (f f' : BackgroundFlush) : Prop where
  before : s.flushes[i]? = some f
  after : s'.flushes = s.flushes.set i f'
  disable_eq : s'.disable = s.disable
  id_eq : (f'.id? = f.id? ∧ s'.nextId = s.nextId) ∨
    (f = .spawned ∧ f'.id? = some s.nextId ∧ s'.nextId = s.nextId + 1)
  tasks : ∀ id ∈ s.backgroundTasksIds, f.id? ≠ some id → id ∈ s'.backgroundTasksIds
  task : ∀ id, f'.id? = some id → IsTask f' → id ∈ s'.backgroundTasksIds
  tokens : ∀ id, f'.id? ≠ some id → s'.cancelTokenMap.find id = s.cancelTokenMap.find id
  token : ∀ id j, f'.id? = some id → s'.cancelTokenMap.find id = some j →
    j = i ∧ ∃ cancelled callback, f' = .flushing id (.registered cancelled) callback
  registered : ∀ id cancelled callback, f' = .flushing id (.registered cancelled) callback →
    callback ≠ .returned → s'.cancelTokenMap.find id = some i

theorem Replaces.getElem? {s s' : Controller} {i : ℕ} {f f' : BackgroundFlush}
    (h : Replaces s s' i f f') (j : ℕ) :
    s'.flushes[j]? = if j = i then some f' else s.flushes[j]? := by
  rw [h.after]
  exact getElem?_set_of_some h.before f' j

/-- The ids of the flushes stay apart. -/
theorem Replaces.id_ne {s s' : Controller} {i j : ℕ} {f f' g : BackgroundFlush} {id : ℕ}
    (hs : Consistent s) (h : Replaces s s' i f f') (hj : s.flushes[j]? = some g) (hne : j ≠ i)
    (hid : g.id? = some id) : f.id? ≠ some id ∧ f'.id? ≠ some id := by
  have hold : f.id? ≠ some id := fun heq => hne (hs.id_inj j i g f id hj h.before hid heq)
  refine ⟨hold, ?_⟩
  rcases h.id_eq with ⟨heq, -⟩ | ⟨-, heq, -⟩
  · rw [heq]
    exact hold
  · rw [heq, ne_eq, Option.some.injEq]
    have := hs.id_lt j g id hj hid
    omega

theorem Consistent.replace {s s' : Controller} {i : ℕ} {f f' : BackgroundFlush}
    (hs : Consistent s) (h : Replaces s s' i f f') : Consistent s' where
  id_lt := by
    intro j g id hj hid
    rw [h.getElem? j] at hj
    split at hj
    · cases hj
      rcases h.id_eq with ⟨heq, hnext⟩ | ⟨-, heq, hnext⟩
      · rw [hnext]
        rw [heq] at hid
        exact hs.id_lt i f id h.before hid
      · rw [heq] at hid
        cases hid
        omega
    · have := hs.id_lt j g id hj hid
      rcases h.id_eq with ⟨-, hnext⟩ | ⟨-, -, hnext⟩
      · omega
      · omega
  id_inj := by
    intro j k g g' id hj hk hg hg'
    rw [h.getElem? j] at hj
    rw [h.getElem? k] at hk
    split at hj
    · next hji =>
      split at hk
      · next hki => rw [hji, hki]
      · next hki =>
        cases hj
        exact absurd hg (Replaces.id_ne hs h hk hki hg').2
    · next hji =>
      split at hk
      · cases hk
        exact absurd hg' (Replaces.id_ne hs h hj hji hg).2
      · exact hs.id_inj j k g g' id hj hk hg hg'
  tasks := by
    intro j g id hj hid htask
    rw [h.getElem? j] at hj
    split at hj
    · cases hj
      exact h.task id hid htask
    · next hji =>
      exact h.tasks id (hs.tasks j g id hj hid htask) (Replaces.id_ne hs h hj hji hid).1
  tokens := by
    intro id j hfind
    by_cases hid : f'.id? = some id
    · obtain ⟨rfl, cancelled, callback, rfl⟩ := h.token id j hid hfind
      exact ⟨cancelled, callback, by rw [h.getElem? j, if_pos rfl]⟩
    · rw [h.tokens id hid] at hfind
      obtain ⟨cancelled, callback, hj⟩ := hs.tokens id j hfind
      refine ⟨cancelled, callback, ?_⟩
      rw [h.getElem? j, if_neg, hj]
      rintro rfl
      rw [h.before] at hj
      cases hj
      rcases h.id_eq with ⟨heq, -⟩ | ⟨heq, -⟩
      · exact hid heq
      · cases heq
  registered := by
    intro j id cancelled callback hj hcallback
    rw [h.getElem? j] at hj
    split at hj
    · next hji =>
      cases hj
      rw [hji]
      exact h.registered id cancelled callback rfl hcallback
    · next hji =>
      rw [h.tokens id (Replaces.id_ne hs h hj hji rfl).2]
      exact hs.registered j id cancelled callback hj hcallback
  started := by
    rw [h.disable_eq, h.after, List.length_set]
    exact hs.started

/-! ## Keeping clean -/

/-- A flush that goes on stays cancelled and stays over. -/
structure Keeps (f f' : BackgroundFlush) : Prop where
  cancelled : f.IsCancelled → f'.IsCancelled
  finished : f.IsFinished → f'.IsFinished

theorem clean_replace_iff {s s' : Controller} {i : ℕ} {f f' : BackgroundFlush}
    (hs : Consistent s) (hclean : Clean s) (h : Replaces s s' i f f') (hkeeps : Keeps f f') :
    Clean s' ↔ ∀ id cancelled, f' = .flushing id (.registered cancelled) .returned →
      s'.cancelTokenMap.find id = none := by
  constructor
  · rintro hclean' id cancelled rfl
    exact hclean'.removed i id cancelled (by rw [h.getElem? i, if_pos rfl])
  · intro hremoved
    refine ⟨?_, ?_, ?_⟩
    · intro j id cancelled hj
      rw [h.getElem? j] at hj
      split at hj
      · exact hremoved id cancelled (Option.some.inj hj)
      · next hji =>
        rw [h.tokens id (Replaces.id_ne hs h hj hji rfl).2]
        exact hclean.removed j id cancelled hj
    · intro j hlt g hj
      rw [h.disable_eq] at hlt
      rw [h.getElem? j] at hj
      split at hj
      · next hji =>
        cases hj
        rw [hji] at hlt
        exact (hclean.cancelled i hlt f h.before).imp hkeeps.cancelled hkeeps.finished
      · exact hclean.cancelled j hlt g hj
    · intro n hn j hlt g hj
      rw [h.disable_eq] at hn
      rw [h.getElem? j] at hj
      split at hj
      · next hji =>
        cases hj
        rw [hji] at hlt
        exact hkeeps.finished (hclean.completed n hn i hlt f h.before)
      · exact hclean.completed n hn j hlt g hj

/-! ## One step -/

/-- What a step does to a consistent controller: it stays consistent, and it stays clean exactly
if the step is in order. -/
structure StepOf (s : Controller) (event : ControllerEvent) (s' : Controller) : Prop where
  consistent : Consistent s'
  clean : Clean s → (Clean s' ↔ InOrder s event)

theorem StepOf.of_replaces {s s' : Controller} {event : ControllerEvent} (i : ℕ)
    (f f' : BackgroundFlush) (hs : Consistent s) (h : Replaces s s' i f f') (hkeeps : Keeps f f')
    (horder : (∀ id cancelled, f' = .flushing id (.registered cancelled) .returned →
      s'.cancelTokenMap.find id = none) ↔ InOrder s event) : StepOf s event s' where
  consistent := hs.replace h
  clean hclean := (clean_replace_iff hs hclean h hkeeps).trans horder

/-- The token that is in the map under the id of a flush is its own. -/
theorem Consistent.token_eq {s : Controller} (hs : Consistent s) {i j id : ℕ}
    {f : BackgroundFlush} (hi : s.flushes[i]? = some f) (hid : f.id? = some id)
    (hfind : s.cancelTokenMap.find id = some j) :
    j = i ∧ ∃ cancelled callback, f = .flushing id (.registered cancelled) callback := by
  obtain ⟨cancelled, callback, hj⟩ := hs.tokens id j hfind
  have hji : j = i := hs.id_inj j i _ f id hj hi rfl hid
  rw [hji, hi, Option.some.injEq] at hj
  exact ⟨hji, cancelled, callback, hj⟩

theorem stepOf_otherTask {s s' : Controller} (hs : Consistent s)
    (hstep : controllerStep s .otherTask = some s') : StepOf s .otherTask s' := by
  cases hstep
  refine ⟨⟨?_, hs.id_inj, hs.tasks, hs.tokens, hs.registered, hs.started⟩, fun hclean => ?_⟩
  · intro i f id hi hid
    exact Nat.lt_succ_of_lt (hs.id_lt i f id hi hid)
  · exact iff_of_true ⟨hclean.removed, hclean.cancelled, hclean.completed⟩ trivial

theorem stepOf_addBackgroundFlushTask {s s' : Controller} {clientLocked : Bool}
    (hs : Consistent s)
    (hstep : controllerStep s (.addBackgroundFlushTask clientLocked) = some s') :
    StepOf s (.addBackgroundFlushTask clientLocked) s' := by
  cases clientLocked with
  | false =>
    cases hstep
    exact ⟨hs, fun hclean => iff_of_true hclean trivial⟩
  | true =>
    cases hstep
    have hcases : ∀ (i : ℕ) (f : BackgroundFlush), (s.flushes ++ [.spawned])[i]? = some f →
        s.flushes[i]? = some f ∨ (i = s.flushes.length ∧ f = .spawned) := by
      intro i f hi
      rw [List.getElem?_append] at hi
      split at hi
      · exact Or.inl hi
      · rw [List.getElem?_singleton] at hi
        split at hi
        · cases hi
          exact Or.inr ⟨by omega, rfl⟩
        · cases hi
    refine ⟨⟨?_, ?_, ?_, ?_, ?_, ?_⟩, fun hclean => iff_of_true ⟨?_, ?_, ?_⟩ trivial⟩
    · intro i f id hi hid
      rcases hcases i f hi with hi | ⟨-, rfl⟩
      · exact hs.id_lt i f id hi hid
      · cases hid
    · intro i j f g id hi hj hf hg
      rcases hcases i f hi with hi | ⟨-, rfl⟩
      · rcases hcases j g hj with hj | ⟨-, rfl⟩
        · exact hs.id_inj i j f g id hi hj hf hg
        · cases hg
      · cases hf
    · intro i f id hi hid htask
      rcases hcases i f hi with hi | ⟨-, rfl⟩
      · exact hs.tasks i f id hi hid htask
      · cases hid
    · intro id i hfind
      obtain ⟨cancelled, callback, hi⟩ := hs.tokens id i hfind
      refine ⟨cancelled, callback, ?_⟩
      rw [List.getElem?_append_left (List.getElem?_eq_some_iff.mp hi).1]
      exact hi
    · intro i id cancelled callback hi hcallback
      rcases hcases i _ hi with hi | ⟨-, heq⟩
      · exact hs.registered i id cancelled callback hi hcallback
      · cases heq
    · rw [List.length_append]
      exact hs.started.trans (Nat.le_add_right _ _)
    · intro i id cancelled hi
      rcases hcases i _ hi with hi | ⟨-, heq⟩
      · exact hclean.removed i id cancelled hi
      · cases heq
    · intro i hlt f hi
      rcases hcases i f hi with hi | ⟨rfl, -⟩
      · exact hclean.cancelled i hlt f hi
      · exact absurd hs.started (by simp only at hlt; omega)
    · intro n hn i hlt f hi
      rcases hcases i f hi with hi | ⟨rfl, -⟩
      · exact hclean.completed n hn i hlt f hi
      · have hstarted := hs.started
        simp only at hn
        rw [hn, DisablePhase.startedBefore] at hstarted
        omega

theorem stepOf_addTask {s s' : Controller} {i : ℕ} (hs : Consistent s)
    (hstep : controllerStep s (.addTask i) = some s') : StepOf s (.addTask i) s' := by
  simp only [controllerStep] at hstep
  split at hstep
  · next hi =>
    cases hstep
    refine .of_replaces i .spawned (.added s.nextId) hs ⟨hi, rfl, rfl,
      Or.inr ⟨rfl, rfl, rfl⟩, ?_, ?_, fun _ _ => rfl, ?_, ?_⟩ ⟨nofun, nofun⟩
      (iff_of_true nofun trivial)
    · exact fun id hid _ => List.mem_append_left _ hid
    · rintro id ⟨⟩ -
      simp
    · -- the id is new
      rintro id j ⟨⟩ hfind
      obtain ⟨cancelled, callback, hj⟩ := hs.tokens s.nextId j hfind
      exact absurd (hs.id_lt j _ s.nextId hj rfl) (lt_irrefl _)
    · nofun
  · cases hstep

theorem stepOf_flush {s s' : Controller} {i : ℕ} (hs : Consistent s)
    (hstep : controllerStep s (.flush i) = some s') : StepOf s (.flush i) s' := by
  simp only [controllerStep] at hstep
  split at hstep
  · next id hi =>
    cases hstep
    refine .of_replaces i (.added id) (.flushing id .inHand .pending) hs
      ⟨hi, rfl, rfl, Or.inl ⟨rfl, rfl⟩, fun _ hmem _ => hmem, ?_, fun _ _ => rfl, ?_, ?_⟩
      ⟨nofun, nofun⟩ (iff_of_true nofun trivial)
    · rintro _ ⟨⟩ -
      exact hs.tasks i _ id hi rfl trivial
    · rintro _ j ⟨⟩ hfind
      obtain ⟨-, cancelled, callback, heq⟩ := hs.token_eq hi rfl hfind
      cases heq
    · nofun
  · cases hstep

/-- **The token is put in the map**: it should not be there if the callback is done. -/
theorem stepOf_addCancelToken {s s' : Controller} {i : ℕ} (hs : Consistent s)
    (hstep : controllerStep s (.addCancelToken i) = some s') : StepOf s (.addCancelToken i) s' := by
  simp only [controllerStep] at hstep
  split at hstep
  · next id callback hi =>
    cases hstep
    have hnone : s.cancelTokenMap.find id = none := by
      cases hfind : s.cancelTokenMap.find id with
      | none => rfl
      | some j =>
        obtain ⟨-, cancelled, callback', heq⟩ := hs.token_eq hi rfl hfind
        cases heq
    have hinsert : insertToken s.cancelTokenMap id i = s.cancelTokenMap.insert id i := by
      simp [insertToken, hnone]
    refine .of_replaces i (.flushing id .inHand callback)
      (.flushing id (.registered false) callback) hs
      ⟨hi, rfl, rfl, Or.inl ⟨rfl, rfl⟩, fun _ hmem _ => hmem, ?_, ?_, ?_, ?_⟩
      ⟨nofun, fun h => h⟩ ?_
    · rintro _ ⟨⟩ htask
      exact hs.tasks i _ id hi rfl htask
    · intro other hne
      have hother : other ≠ id := fun heq => hne (by rw [heq]; rfl)
      rw [hinsert, SortedMap.find_insert, if_neg hother]
    · rintro _ j ⟨⟩ hfind
      rw [hinsert, SortedMap.find_insert_self] at hfind
      cases hfind
      exact ⟨rfl, false, callback, rfl⟩
    · rintro _ _ _ ⟨⟩ -
      rw [hinsert, SortedMap.find_insert_self]
    · simp only [InOrder, hi, hinsert]
      constructor
      · rintro hgone id' ⟨⟩
        have := hgone id false rfl
        rw [SortedMap.find_insert_self] at this
        cases this
      · rintro hnot _ _ ⟨⟩
        exact absurd rfl (hnot id)
  · cases hstep

/-- **The flush ends**, or its callback releases the task: the map stays. -/
theorem stepOf_callback {s s' : Controller} {event : ControllerEvent} {i id : ℕ}
    {token : TokenPhase} {callback : CallbackPhase} (callback' : CallbackPhase) (hs : Consistent s)
    (hi : s.flushes[i]? = some (.flushing id token callback))
    (hphase : callback ≠ .returned ∧ callback' ≠ .returned ∧ callback' ≠ .pending)
    (hs' : s' = { s with
      backgroundTasksIds := s'.backgroundTasksIds,
      flushes := s.flushes.set i (.flushing id token callback') })
    (htasks : ∀ other ∈ s.backgroundTasksIds, other ≠ id → other ∈ s'.backgroundTasksIds)
    (htask : callback' = .called → id ∈ s'.backgroundTasksIds) (horder : InOrder s event) :
    StepOf s event s' := by
  rw [hs']
  refine .of_replaces i (.flushing id token callback) (.flushing id token callback') hs
    ⟨hi, rfl, rfl, Or.inl ⟨rfl, rfl⟩, ?_, ?_, fun _ _ => rfl, ?_, ?_⟩
    ⟨fun h => h, fun _ => hphase.2.2⟩ (iff_of_true ?_ horder)
  · exact fun other hmem hne => htasks other hmem fun heq => hne (by rw [heq]; rfl)
  · rintro _ ⟨⟩ htask'
    exact htask (htask'.resolve_left hphase.2.2)
  · rintro _ j ⟨⟩ hfind
    obtain ⟨hji, cancelled, callback'', heq⟩ := hs.token_eq hi rfl hfind
    cases heq
    exact ⟨hji, cancelled, callback', rfl⟩
  · rintro _ cancelled _ ⟨⟩ -
    exact hs.registered i id cancelled callback hi hphase.1
  · rintro _ _ ⟨⟩
    exact absurd rfl hphase.2.1

theorem stepOf_endFlush {s s' : Controller} {i : ℕ} (hs : Consistent s)
    (hstep : controllerStep s (.endFlush i) = some s') : StepOf s (.endFlush i) s' := by
  simp only [controllerStep] at hstep
  split at hstep
  · next id token hi =>
    cases hstep
    refine stepOf_callback .called hs hi (by simp) rfl (fun _ hmem _ => hmem) ?_
      trivial
    exact fun _ => hs.tasks i _ id hi rfl (Or.inl rfl)
  · cases hstep

theorem stepOf_releaseTask {s s' : Controller} {i : ℕ} (hs : Consistent s)
    (hstep : controllerStep s (.releaseTask i) = some s') : StepOf s (.releaseTask i) s' := by
  simp only [controllerStep] at hstep
  split at hstep
  · next id token hi =>
    cases hstep
    refine stepOf_callback .released hs hi (by simp) rfl ?_ nofun trivial
    exact fun other hmem hne => List.mem_filter.mpr ⟨hmem, by simpa using hne⟩
  · cases hstep

theorem stepOf_removeCancelToken {s s' : Controller} {i : ℕ} (hs : Consistent s)
    (hstep : controllerStep s (.removeCancelToken i) = some s') :
    StepOf s (.removeCancelToken i) s' := by
  simp only [controllerStep] at hstep
  split at hstep
  · next id token hi =>
    cases hstep
    have hgone : (s.cancelTokenMap.erase id).find id = none := by
      rw [SortedMap.find_erase, if_pos rfl]
    refine .of_replaces i (.flushing id token .released) (.flushing id token .returned) hs
      ⟨hi, rfl, rfl, Or.inl ⟨rfl, rfl⟩, fun _ hmem _ => hmem, ?_, ?_, ?_, ?_⟩
      ⟨fun h => h, fun _ => nofun⟩ (iff_of_true ?_ trivial)
    · rintro _ ⟨⟩ htask
      simp [IsTask] at htask
    · intro other hne
      have hother : other ≠ id := fun heq => hne (by rw [heq]; rfl)
      rw [SortedMap.find_erase, if_neg hother]
    · rintro _ j ⟨⟩ hfind
      rw [hgone] at hfind
      cases hfind
    · rintro _ _ _ ⟨⟩ hne
      exact absurd rfl hne
    · rintro _ _ ⟨⟩
      exact hgone
  · cases hstep

/-- What the loop of `Cancel` does to one flush. -/
theorem getElem?_cancelTokens (entries : List (ℕ × ℕ)) (flushes : List BackgroundFlush) (i : ℕ) :
    (cancelTokens entries flushes)[i]? =
      flushes[i]?.map fun f => if i ∈ entries.map Prod.snd then f.cancel else f := by
  induction entries generalizing flushes with
  | nil => simp [cancelTokens]
  | cons e entries ih =>
    rw [cancelTokens, List.foldl_cons, ← cancelTokens, ih, List.getElem?_modify,
      Option.map_eq_map, Option.map_map]
    congr 1
    funext f
    by_cases hi : e.2 = i
    · simp [hi]
    · have hne : i ≠ e.2 := Ne.symm hi
      rw [Function.comp_apply, if_neg hi]
      exact if_congr (by simp [hne]) rfl rfl

theorem length_cancelTokens (entries : List (ℕ × ℕ)) (flushes : List BackgroundFlush) :
    (cancelTokens entries flushes).length = flushes.length := by
  induction entries generalizing flushes with
  | nil => rfl
  | cons e entries ih =>
    rw [cancelTokens, List.foldl_cons, ← cancelTokens, ih, List.length_modify]

/-- A flush, and the same one with perhaps its token cancelled. -/
inductive MaybeCancelled : BackgroundFlush → BackgroundFlush → Prop where
  | same (f : BackgroundFlush) : MaybeCancelled f f
  | cancelled (id : ℕ) (cancelled : Bool) (callback : CallbackPhase) :
    MaybeCancelled (.flushing id (.registered cancelled) callback)
      (.flushing id (.registered true) callback)

theorem maybeCancelled_cancel (f : BackgroundFlush) : MaybeCancelled f f.cancel := by
  cases f with
  | spawned => exact .same _
  | added id => exact .same _
  | flushing id token callback =>
    cases token with
    | inHand => exact .same _
    | registered cancelled => exact .cancelled id cancelled callback

theorem MaybeCancelled.id?_eq {f f' : BackgroundFlush} (h : MaybeCancelled f f') :
    f'.id? = f.id? := by
  cases h with
  | same => rfl
  | cancelled => rfl

theorem MaybeCancelled.isTask_iff {f f' : BackgroundFlush} (h : MaybeCancelled f f') :
    IsTask f' ↔ IsTask f := by
  cases h with
  | same => exact Iff.rfl
  | cancelled => exact Iff.rfl

theorem MaybeCancelled.isFinished_iff {f f' : BackgroundFlush} (h : MaybeCancelled f f') :
    f'.IsFinished ↔ f.IsFinished := by
  cases h with
  | same => exact Iff.rfl
  | cancelled => exact Iff.rfl

theorem MaybeCancelled.registered_iff {f f' : BackgroundFlush} (h : MaybeCancelled f f') (id : ℕ)
    (callback : CallbackPhase) :
    (∃ cancelled, f' = .flushing id (.registered cancelled) callback) ↔
      ∃ cancelled, f = .flushing id (.registered cancelled) callback := by
  cases h with
  | same => exact Iff.rfl
  | cancelled id' cancelled callback' => simp

theorem registered_of_cancelled {f f' : BackgroundFlush} (h : MaybeCancelled f f')
    (hcancelled : f'.IsCancelled) (hnot : ¬ f.IsFinished) :
    ∃ id cancelled, f = .flushing id (.registered cancelled) .pending := by
  cases f' with
  | spawned => exact hcancelled.elim
  | added id => exact hcancelled.elim
  | flushing id token callback =>
    have htoken : token = .registered true := hcancelled
    obtain ⟨cancelled, rfl⟩ := (h.registered_iff id callback).mp ⟨true, by rw [htoken]⟩
    have hpending : callback = .pending := by
      by_contra hne
      exact hnot hne
    exact ⟨id, cancelled, by rw [hpending]⟩

/-- `Cancel` may cancel tokens, and cancels those that are in the map. -/
theorem maybeCancelled_getElem? {s : Controller} {i : ℕ} {f' : BackgroundFlush} :
    (cancelTokens s.cancelTokenMap.entries s.flushes)[i]? = some f' ↔
      ∃ f, s.flushes[i]? = some f ∧ MaybeCancelled f f' ∧
        f' = if i ∈ s.cancelTokenMap.entries.map Prod.snd then f.cancel else f := by
  rw [getElem?_cancelTokens, Option.map_eq_some_iff]
  constructor
  · rintro ⟨f, hi, rfl⟩
    refine ⟨f, hi, ?_, rfl⟩
    split
    · exact maybeCancelled_cancel f
    · exact .same f
  · rintro ⟨f, hi, -, heq⟩
    exact ⟨f, hi, heq.symm⟩

/-- **`Cancel`** should find a token for every flush that is not over. -/
theorem stepOf_cancel {s s' : Controller} (hs : Consistent s)
    (hstep : controllerStep s .cancel = some s') : StepOf s .cancel s' := by
  simp only [controllerStep] at hstep
  split at hstep
  · next hdisable =>
    cases hstep
    refine ⟨⟨?_, ?_, ?_, ?_, ?_, ?_⟩, fun hclean => ⟨?_, ?_⟩⟩
    · intro i f' id hi hid
      obtain ⟨f, hf, hmaybe, -⟩ := maybeCancelled_getElem?.mp hi
      exact hs.id_lt i f id hf (hmaybe.id?_eq ▸ hid)
    · intro i j f' g' id hi hj hid hid'
      obtain ⟨f, hf, hmaybe, -⟩ := maybeCancelled_getElem?.mp hi
      obtain ⟨g, hg, hmaybe', -⟩ := maybeCancelled_getElem?.mp hj
      exact hs.id_inj i j f g id hf hg (hmaybe.id?_eq ▸ hid) (hmaybe'.id?_eq ▸ hid')
    · intro i f' id hi hid htask
      obtain ⟨f, hf, hmaybe, -⟩ := maybeCancelled_getElem?.mp hi
      exact hs.tasks i f id hf (hmaybe.id?_eq ▸ hid) (hmaybe.isTask_iff.mp htask)
    · intro id i hfind
      obtain ⟨cancelled, callback, hi⟩ := hs.tokens id i hfind
      have hi' := getElem?_cancelTokens s.cancelTokenMap.entries s.flushes i
      rw [hi, Option.map_some] at hi'
      obtain ⟨f, hf, hmaybe, -⟩ := maybeCancelled_getElem?.mp hi'
      rw [hi] at hf
      cases hf
      obtain ⟨cancelled', heq⟩ := (hmaybe.registered_iff id callback).mpr ⟨cancelled, rfl⟩
      rw [heq] at hi'
      exact ⟨cancelled', callback, hi'⟩
    · intro i id cancelled callback hi hcallback
      obtain ⟨f, hf, hmaybe, -⟩ := maybeCancelled_getElem?.mp hi
      obtain ⟨cancelled', rfl⟩ := (hmaybe.registered_iff id callback).mp ⟨cancelled, rfl⟩
      exact hs.registered i id cancelled' callback hf hcallback
    · exact (length_cancelTokens s.cancelTokenMap.entries s.flushes).ge
    · intro hclean' _ f hf hnot
      obtain ⟨i, hlt, hi⟩ := List.mem_iff_getElem.mp hf
      have hi? := List.getElem?_eq_some_iff.mpr ⟨hlt, hi⟩
      have hi' := getElem?_cancelTokens s.cancelTokenMap.entries s.flushes i
      rw [hi?, Option.map_some] at hi'
      obtain ⟨f₁, hf₁, hmaybe, -⟩ := maybeCancelled_getElem?.mp hi'
      rw [hi?] at hf₁
      cases hf₁
      rcases hclean'.cancelled i hlt _ hi' with hcancelled | hfinished
      · exact registered_of_cancelled hmaybe hcancelled hnot
      · exact absurd (hmaybe.isFinished_iff.mp hfinished) hnot
    · intro horder
      refine ⟨?_, ?_, nofun⟩
      · intro i id cancelled hi
        obtain ⟨f, hf, hmaybe, -⟩ := maybeCancelled_getElem?.mp hi
        obtain ⟨cancelled', rfl⟩ := (hmaybe.registered_iff id .returned).mp ⟨cancelled, rfl⟩
        exact hclean.removed i id cancelled' hf
      · intro i _ f' hi
        obtain ⟨f, hf, hmaybe, heq⟩ := maybeCancelled_getElem?.mp hi
        by_cases hnot : f.IsFinished
        · exact Or.inr (hmaybe.isFinished_iff.mpr hnot)
        · obtain ⟨id, cancelled, rfl⟩ := horder hdisable f (List.mem_of_getElem? hf) hnot
          have hmem := SortedMap.mem_of_find (hs.registered i id cancelled .pending hf nofun)
          rw [if_pos (List.mem_map.mpr ⟨_, hmem, rfl⟩)] at heq
          rw [heq]
          exact Or.inl rfl
  · cases hstep

theorem stepOf_waitAsync {s s' : Controller} (hs : Consistent s)
    (hstep : controllerStep s .waitAsync = some s') : StepOf s .waitAsync s' := by
  simp only [controllerStep] at hstep
  split at hstep
  · next n hdisable =>
    cases hstep
    have hstarted := hs.started
    rw [hdisable] at hstarted
    refine ⟨⟨hs.id_lt, hs.id_inj, hs.tasks, hs.tokens, hs.registered, hstarted⟩,
      fun hclean => iff_of_true ⟨hclean.removed, ?_, nofun⟩ trivial⟩
    have hcancelled := hclean.cancelled
    rw [hdisable] at hcancelled
    exact hcancelled
  · cases hstep

/-- **The future is set**: no flush started before `Disable` should be without an id then. -/
theorem stepOf_completed {s s' : Controller} (hs : Consistent s)
    (hstep : controllerStep s .completed = some s') : StepOf s .completed s' := by
  simp only [controllerStep] at hstep
  split at hstep
  · next n hdisable =>
    split at hstep
    · next hempty =>
      cases hstep
      have hstarted := hs.started
      rw [hdisable] at hstarted
      refine ⟨⟨hs.id_lt, hs.id_inj, hs.tasks, hs.tokens, hs.registered, hstarted⟩,
        fun hclean => ⟨?_, ?_⟩⟩
      · intro hclean' m hm _ i hlt hi
        rw [hdisable] at hm
        cases hm
        exact hclean'.completed n rfl i hlt _ hi
      · intro horder
        have hcancelled := hclean.cancelled
        rw [hdisable] at hcancelled
        refine ⟨hclean.removed, hcancelled, ?_⟩
        rintro _ ⟨⟩ i hlt f hi
        -- a flush that is not over has its task in the collection
        have hnotTask : ∀ id, f.id? = some id → ¬ IsTask f := by
          intro id hid htask
          have hmem := hs.tasks i f id hi hid htask
          rw [hempty] at hmem
          cases hmem
        cases f with
        | spawned => exact absurd hi (horder n hdisable hempty i hlt)
        | added id => exact absurd trivial (hnotTask id rfl)
        | flushing id token callback =>
          intro hpending
          exact hnotTask id rfl (Or.inl hpending)
    · cases hstep
  · cases hstep

theorem stepOf_of_step {s s' : Controller} {event : ControllerEvent} (hs : Consistent s)
    (hstep : controllerStep s event = some s') : StepOf s event s' := by
  cases event with
  | addBackgroundFlushTask clientLocked => exact stepOf_addBackgroundFlushTask hs hstep
  | addTask i => exact stepOf_addTask hs hstep
  | otherTask => exact stepOf_otherTask hs hstep
  | flush i => exact stepOf_flush hs hstep
  | addCancelToken i => exact stepOf_addCancelToken hs hstep
  | endFlush i => exact stepOf_endFlush hs hstep
  | releaseTask i => exact stepOf_releaseTask hs hstep
  | removeCancelToken i => exact stepOf_removeCancelToken hs hstep
  | cancel => exact stepOf_cancel hs hstep
  | waitAsync => exact stepOf_waitAsync hs hstep
  | completed => exact stepOf_completed hs hstep

/-- A step that cannot be made is in order. -/
theorem inOrder_of_none {s : Controller} {event : ControllerEvent}
    (hstep : controllerStep s event = none) : InOrder s event := by
  cases event with
  | addCancelToken i =>
    intro id hi
    simp [controllerStep, hi] at hstep
  | cancel =>
    intro hdisable
    simp [controllerStep, hdisable] at hstep
  | completed =>
    intro n hdisable hempty
    simp [controllerStep, hdisable, hempty] at hstep
  | addBackgroundFlushTask clientLocked => trivial
  | addTask i => trivial
  | otherTask => trivial
  | flush i => trivial
  | endFlush i => trivial
  | releaseTask i => trivial
  | removeCancelToken i => trivial
  | waitAsync => trivial

/-! ## Whole runs -/

/-- **A shutdown is clean exactly as long as the steps are in order.** For every interleaving of
the threads, from a new controller: all states are clean if and only if every token is put in
the map before its flush's callback removes it, `Disable` finds a token for every flush that is
not over, and its future finds the collection empty only when every flush started before has its
id. -/
theorem clean_iff_inOrder (nextId : ℕ) (events : List ControllerEvent) :
    (∀ before, before <+: events → ∀ s,
        runFrom controllerStep (Controller.start nextId) before = some s → Clean s) ↔
      Along controllerStep InOrder (Controller.start nextId) events := by
  have hconsistent : Consistent (Controller.start nextId) := by
    constructor <;> simp [Controller.start, DisablePhase.startedBefore]
  have hclean : Clean (Controller.start nextId) := by
    constructor <;> simp [Controller.start, DisablePhase.startedBefore]
  exact forall_before_iff_along Consistent Clean
    (fun s event s' hs hstep => (stepOf_of_step hs hstep).consistent)
    (fun s event s' hs hclean hstep => (stepOf_of_step hs hstep).clean hclean)
    (fun s event _ hstep => inOrder_of_none hstep) hconsistent hclean events

/-- A callback that overtakes the thread of its flush leaves the token in the map; and `Disable`
neither cancels nor awaits a flush whose thread has not started. -/
theorem shutdown_not_clean :
    (∃ s, runFrom controllerStep (Controller.start 0)
        [.addBackgroundFlushTask true, .addTask 0, .flush 0, .endFlush 0, .releaseTask 0,
          .removeCancelToken 0, .addCancelToken 0] = some s ∧
      s.flushes = [.flushing 0 (.registered false) .returned] ∧
      s.cancelTokenMap.find 0 = some 0 ∧ ¬ Clean s) ∧
    ∃ s, runFrom controllerStep (Controller.start 0)
        [.addBackgroundFlushTask true, .cancel, .waitAsync, .completed] = some s ∧
      s.disable = .ready 1 ∧ s.flushes = [.spawned] ∧ ¬ Clean s := by
  refine ⟨⟨_, rfl, rfl, rfl, fun hclean => ?_⟩, ⟨_, rfl, rfl, rfl, fun hclean => ?_⟩⟩
  · exact absurd (hclean.removed 0 0 false rfl) (by decide)
  · exact hclean.completed 1 rfl 0 (by omega) .spawned rfl

end OlpEdgeSdk.Analysis.Shutdown

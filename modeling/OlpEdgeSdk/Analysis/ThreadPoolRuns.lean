import OlpEdgeSdk.Base.Progress
import OlpEdgeSdk.Model.ThreadPool

/-!
# Runs of the thread pool

`stepped_of_step` says once what a step can do; the invariants are read off from it. Tasks leave
the queue in the order they came (`Kept`), each is called at most once (`Kept.balance`), no
thread sleeps through a task (`Kept.awake`), and the steps the pool takes by itself are paid for
by the tasks and the spurious wakings (`potential_step`), so that it comes to rest with nothing
left to do.
-/

set_option autoImplicit false

namespace OlpEdgeSdk.Analysis.ThreadPoolRuns

open OlpEdgeSdk.Base OlpEdgeSdk.Model ThreadPoolTaskScheduler

/-! ## What a step does -/

/-- A step, with what it finds. -/
inductive Stepped (p : ThreadPoolTaskScheduler) : Event → ThreadPoolTaskScheduler → Prop where
  | rejected (cancellable : Bool) (hclosed : p.syncQueue.closed = true) :
      Stepped p (.scheduleTask cancellable) { p with scheduled := p.scheduled + 1 }
  | accepted (cancellable : Bool) (hopen : p.syncQueue.closed = false) :
      Stepped p (.scheduleTask cancellable)
        { p with
          scheduled := p.scheduled + 1,
          syncQueue := ⟨p.syncQueue.queue ++ [⟨p.scheduled, cancellable⟩], false⟩,
          notifyOnes := p.notifyOnes + 1,
          accepted := p.accepted ++ [⟨p.scheduled, cancellable⟩] }
  | notifiedNobody (hdue : p.notifyOnes ≠ 0) (hnobody : .asleep ∉ p.workers) :
      Stepped p (.notifyOne none) { p with notifyOnes := p.notifyOnes - 1 }
  | notified (i : ℕ) (hdue : p.notifyOnes ≠ 0) (hi : p.workers[i]? = some .asleep) :
      Stepped p (.notifyOne (some i))
        { p with notifyOnes := p.notifyOnes - 1, workers := p.workers.set i .pulling }
  | slept (i : ℕ) (hi : p.workers[i]? = some .pulling) (hopen : p.syncQueue.closed = false)
      (hempty : p.syncQueue.queue = []) :
      Stepped p (.lockMutex i) { p with workers := p.workers.set i .asleep }
  | left (i : ℕ) (hi : p.workers[i]? = some .pulling) (hclosed : p.syncQueue.closed = true) :
      Stepped p (.lockMutex i) { p with workers := p.workers.set i .returned }
  | pulled (i : ℕ) (task : Task) (queue : List Task) (hi : p.workers[i]? = some .pulling)
      (hopen : p.syncQueue.closed = false) (hqueue : p.syncQueue.queue = task :: queue) :
      Stepped p (.lockMutex i)
        { p with
          syncQueue := ⟨queue, false⟩,
          workers := p.workers.set i (.holding task),
          pulled := p.pulled ++ [task] }
  | woke (i : ℕ) (hi : p.workers[i]? = some .asleep) :
      Stepped p (.wakeSpuriously i) { p with workers := p.workers.set i .pulling }
  | skipped (i : ℕ) (task : Task) (hi : p.workers[i]? = some (.holding task))
      (hcancellable : task.cancellable = true) (hcancelled : task.id ∈ p.cancelled) :
      Stepped p (.callTask i)
        { p with workers := p.workers.set i .pulling, skipped := p.skipped ++ [task] }
  | called (i : ℕ) (task : Task) (hi : p.workers[i]? = some (.holding task))
      (hgo : task.cancellable = true → task.id ∉ p.cancelled) :
      Stepped p (.callTask i)
        { p with workers := p.workers.set i (.running task), executed := p.executed ++ [task] }
  | taskReturned (i : ℕ) (task : Task) (hi : p.workers[i]? = some (.running task)) :
      Stepped p (.taskReturns i) { p with workers := p.workers.set i .pulling }
  | cancelled (id : ℕ) (hid : id < p.scheduled) :
      Stepped p (.cancelOperation id) { p with cancelled := id :: p.cancelled }
  | closed (hstart : p.destructor = .notStarted) :
      Stepped p .close { p with syncQueue := ⟨[], true⟩, destructor := .notifying }
  | notifiedAll (hnotify : p.destructor = .notifying) :
      Stepped p .notifyAll { p with workers := p.workers.map .wake, destructor := .joining 0 }
  | joined (k : ℕ) (hjoin : p.destructor = .joining k) (hk : p.workers[k]? = some .returned) :
      Stepped p .join { p with destructor := .joining (k + 1) }

theorem stepped_scheduleTask (p : ThreadPoolTaskScheduler) (cancellable : Bool) :
    Stepped p (.scheduleTask cancellable) (p.scheduleTask cancellable) := by
  unfold scheduleTask enqueueTask SyncQueue.push
  cases hclosed : p.syncQueue.closed with
  | true =>
    simp only [if_true]
    exact .rejected cancellable hclosed
  | false =>
    simp only [Bool.false_eq_true, if_false]
    exact .accepted cancellable hclosed

theorem stepped_pulls {p : ThreadPoolTaskScheduler} {i : ℕ}
    (hi : p.workers[i]? = some .pulling) : Stepped p (.lockMutex i) (p.pulls i) := by
  unfold pulls SyncQueue.pull
  cases hclosed : p.syncQueue.closed with
  | true =>
    simp only [if_true]
    exact .left i hi hclosed
  | false =>
    cases hqueue : p.syncQueue.queue with
    | nil =>
      simp only [Bool.false_eq_true, if_false]
      exact .slept i hi hclosed hqueue
    | cons task queue =>
      simp only [Bool.false_eq_true, if_false]
      exact .pulled i task queue hi hclosed hqueue

theorem stepped_callTask {p : ThreadPoolTaskScheduler} {i : ℕ} {task : Task}
    (hi : p.workers[i]? = some (.holding task)) :
    Stepped p (.callTask i) (p.callTask i task) := by
  unfold ThreadPoolTaskScheduler.callTask
  split
  · next hskip =>
    simp only [Bool.and_eq_true, List.contains_eq_mem, decide_eq_true_eq] at hskip
    exact .skipped i task hi hskip.1 hskip.2
  · next hgo =>
    simp only [Bool.and_eq_true, List.contains_eq_mem, decide_eq_true_eq, not_and] at hgo
    exact .called i task hi hgo

/-- **Inversion of a step.** -/
theorem stepped_of_step {p p' : ThreadPoolTaskScheduler} {event : Event}
    (h : step p event = some p') : Stepped p event p' := by
  cases event with
  | scheduleTask cancellable =>
    simp only [step, Option.ite_none_left_eq_some, Option.some.injEq] at h
    obtain ⟨-, rfl⟩ := h
    exact stepped_scheduleTask p cancellable
  | notifyOne worker =>
    cases worker with
    | none =>
      simp only [step, Option.ite_none_left_eq_some, Option.some.injEq, not_or] at h
      obtain ⟨⟨hdue, hnobody⟩, rfl⟩ := h
      exact .notifiedNobody hdue hnobody
    | some i =>
      simp only [step, Option.ite_none_right_eq_some, Option.some.injEq] at h
      obtain ⟨⟨hdue, hi⟩, rfl⟩ := h
      exact .notified i hdue hi
  | lockMutex i =>
    simp only [step, Option.ite_none_right_eq_some, Option.some.injEq] at h
    obtain ⟨hi, rfl⟩ := h
    exact stepped_pulls hi
  | wakeSpuriously i =>
    simp only [step, Option.ite_none_right_eq_some, Option.some.injEq] at h
    obtain ⟨hi, rfl⟩ := h
    exact .woke i hi
  | callTask i =>
    simp only [step] at h
    split at h
    · next task hi =>
      cases h
      exact stepped_callTask hi
    · cases h
  | taskReturns i =>
    simp only [step] at h
    split at h
    · next task hi =>
      cases h
      exact .taskReturned i task hi
    · cases h
  | cancelOperation id =>
    simp only [step, Option.ite_none_right_eq_some, Option.some.injEq] at h
    obtain ⟨hid, rfl⟩ := h
    exact .cancelled id hid
  | close =>
    simp only [step] at h
    split at h
    · next hstart =>
      cases h
      exact .closed hstart
    · cases h
  | notifyAll =>
    simp only [step] at h
    split at h
    · next hnotify =>
      cases h
      exact .notifiedAll hnotify
    · cases h
  | join =>
    simp only [step] at h
    split at h
    · next k hjoin =>
      simp only [Option.ite_none_right_eq_some, Option.some.injEq] at h
      obtain ⟨hk, rfl⟩ := h
      exact .joined k hjoin hk
    · cases h

/-! ## What is kept -/

/-- What has become of the tasks. -/
structure Handed (p : ThreadPoolTaskScheduler) : Prop where
  ids : ∀ task ∈ p.accepted, task.id < p.scheduled
  fresh : p.accepted.Pairwise fun a b => a.id < b.id
  waiting : p.syncQueue.closed = false → p.accepted = p.pulled ++ p.syncQueue.queue
  order : p.pulled <+: p.accepted
  balance : ∀ task, p.pulled.count task =
    p.executed.count task + p.skipped.count task + p.workers.count (.holding task)
  skips : ∀ task ∈ p.skipped, task.cancellable = true ∧ task.id ∈ p.cancelled

/-- Who is awake, and how far the destructor can be. -/
structure Alert (p : ThreadPoolTaskScheduler) : Prop where
  started : p.syncQueue.closed = false ↔ p.destructor = .notStarted
  awake : .asleep ∈ p.workers →
    p.syncQueue.queue.length ≤ p.notifyOnes + p.workers.count .pulling
  emptied : p.syncQueue.closed = true → p.syncQueue.queue = []
  alarmed : .asleep ∈ p.workers → p.syncQueue.closed = true → p.destructor = .notifying
  left : .returned ∈ p.workers → p.syncQueue.closed = true
  joins : ∀ k, p.destructor = .joining k → k ≤ p.workers.length

section Steps

variable {p p' : ThreadPoolTaskScheduler} {event : Event}

theorem Handed.fresh_step (h : Handed p) (hs : Stepped p event p') :
    (∀ task ∈ p'.accepted, task.id < p'.scheduled) ∧
      p'.accepted.Pairwise fun a b => a.id < b.id := by
  cases hs with
  | rejected => exact ⟨fun task ht => Nat.lt_succ_of_lt (h.ids task ht), h.fresh⟩
  | accepted cancellable hopen =>
    constructor
    · intro task ht
      rcases List.mem_append.mp ht with ht | ht
      · exact Nat.lt_succ_of_lt (h.ids task ht)
      · rw [List.mem_singleton.mp ht]
        exact Nat.lt_succ_self _
    · refine List.pairwise_append.mpr ⟨h.fresh, List.pairwise_singleton _ _, ?_⟩
      intro a ha b hb
      rw [List.mem_singleton.mp hb]
      exact h.ids a ha
  | _ => exact ⟨h.ids, h.fresh⟩

theorem Handed.order_step (h : Handed p) (hs : Stepped p event p') :
    (p'.syncQueue.closed = false → p'.accepted = p'.pulled ++ p'.syncQueue.queue) ∧
      p'.pulled <+: p'.accepted := by
  cases hs with
  | accepted cancellable hopen =>
    refine ⟨fun _ => ?_, h.order.trans (List.prefix_append _ _)⟩
    show p.accepted ++ _ = p.pulled ++ (p.syncQueue.queue ++ _)
    rw [h.waiting hopen, List.append_assoc]
  | pulled i task queue hi hopen hqueue =>
    have hparts : p.accepted = p.pulled ++ [task] ++ queue := by
      rw [h.waiting hopen, hqueue, List.append_assoc]
      rfl
    exact ⟨fun _ => hparts, hparts ▸ List.prefix_append _ _⟩
  | closed => exact ⟨nofun, h.order⟩
  | _ => exact ⟨h.waiting, h.order⟩

theorem wake_eq_holding (worker : Worker) (task : Task) :
    worker.wake = .holding task ↔ worker = .holding task := by
  cases worker <;> simp [Worker.wake]

theorem count_map_wake (workers : List Worker) (task : Task) :
    (workers.map Worker.wake).count (Worker.holding task) = workers.count (.holding task) := by
  induction workers with
  | nil => rfl
  | cons worker workers ih =>
    simp only [List.map_cons, List.count_cons, ih, beq_iff_eq, wake_eq_holding]

/-- A thread that neither held the task nor holds it now. -/
theorem count_holding_set {workers : List Worker} {i : ℕ} {old : Worker}
    (hi : workers[i]? = some old) (new : Worker) (task : Task) (hold : old ≠ .holding task)
    (hnew : new ≠ .holding task) :
    workers.count (.holding task) = (workers.set i new).count (.holding task) := by
  have hcount := count_set hi new (.holding task)
  rw [if_neg hold, if_neg hnew] at hcount
  exact hcount.symm

theorem count_holding_of_some {workers : List Worker} {i : ℕ} {other : Task}
    (hi : workers[i]? = some (.holding other)) (new : Worker) (task : Task)
    (hnew : new ≠ .holding task) :
    (workers.set i new).count (.holding task) + [other].count task =
      workers.count (.holding task) := by
  have hcount := count_set hi new (.holding task)
  rw [if_neg hnew, Nat.add_zero] at hcount
  simpa only [Worker.holding.injEq, List.count_singleton, beq_iff_eq] using hcount

theorem Handed.balance_step (h : Handed p) (hs : Stepped p event p') (task : Task) :
    p'.pulled.count task =
      p'.executed.count task + p'.skipped.count task + p'.workers.count (.holding task) := by
  have hold := h.balance task
  cases hs with
  | notified i hdue hi =>
    exact hold.trans (congrArg _ (count_holding_set hi .pulling task (by simp) (by simp)))
  | slept i hi =>
    exact hold.trans (congrArg _ (count_holding_set hi .asleep task (by simp) (by simp)))
  | left i hi =>
    exact hold.trans (congrArg _ (count_holding_set hi .returned task (by simp) (by simp)))
  | woke i hi =>
    exact hold.trans (congrArg _ (count_holding_set hi .pulling task (by simp) (by simp)))
  | taskReturned i other hi =>
    exact hold.trans (congrArg _ (count_holding_set hi .pulling task (by simp) (by simp)))
  | notifiedAll => exact hold.trans (congrArg _ (count_map_wake p.workers task).symm)
  | pulled i other queue hi =>
    have hcount := count_set hi (.holding other) (.holding task)
    rw [if_neg (by simp)] at hcount
    simp only [Worker.holding.injEq] at hcount
    simp only [List.count_append, List.count_singleton, beq_iff_eq]
    omega
  | skipped i other hi =>
    have hcount := count_holding_of_some hi .pulling task (by simp)
    simp only [List.count_append]
    omega
  | called i other hi =>
    have hcount := count_holding_of_some hi (.running other) task (by simp)
    simp only [List.count_append]
    omega
  | _ => exact hold

theorem Handed.skips_step (h : Handed p) (hs : Stepped p event p') :
    ∀ task ∈ p'.skipped, task.cancellable = true ∧ task.id ∈ p'.cancelled := by
  cases hs with
  | skipped i task hi hcancellable hcancelled =>
    intro other hother
    rcases List.mem_append.mp hother with hother | hother
    · exact h.skips other hother
    · rw [List.mem_singleton.mp hother]
      exact ⟨hcancellable, hcancelled⟩
  | cancelled id =>
    intro task ht
    exact ⟨(h.skips task ht).1, List.mem_cons_of_mem _ (h.skips task ht).2⟩
  | _ => exact h.skips

/-- **Step.** -/
theorem handed_step (h : Handed p) (hs : Stepped p event p') : Handed p' where
  ids := (h.fresh_step hs).1
  fresh := (h.fresh_step hs).2
  waiting := (h.order_step hs).1
  order := (h.order_step hs).2
  balance := h.balance_step hs
  skips := h.skips_step hs

theorem mem_of_mem_set {workers : List Worker} {i : ℕ} {worker new : Worker}
    (h : worker ∈ workers.set i new) (hne : worker ≠ new) : worker ∈ workers := by
  rcases List.mem_or_eq_of_mem_set h with hmem | heq
  · exact hmem
  · exact absurd heq hne

/-- A thread that comes out of the wait or of a task is on its way to the mutex. -/
theorem count_pulling_le {workers : List Worker} {i : ℕ} {old : Worker}
    (hi : workers[i]? = some old) (hold : old ≠ .pulling) :
    (workers.set i .pulling).count .pulling = workers.count .pulling + 1 := by
  have hcount := count_set hi .pulling .pulling
  rwa [if_neg hold, if_pos rfl] at hcount

/-- A thread that is on its way to the mutex is so no more. -/
theorem count_pulling_lt {workers : List Worker} {i : ℕ} (hi : workers[i]? = some .pulling)
    (new : Worker) (hnew : new ≠ .pulling) :
    (workers.set i new).count .pulling + 1 = workers.count .pulling := by
  have hcount := count_set hi new .pulling
  rwa [if_neg hnew, if_pos rfl] at hcount

theorem Alert.awake_step (h : Alert p) (hs : Stepped p event p') :
    .asleep ∈ p'.workers →
      p'.syncQueue.queue.length ≤ p'.notifyOnes + p'.workers.count .pulling := by
  intro hasleep
  cases hs with
  | accepted =>
    have hold := h.awake hasleep
    simp only [List.length_append, List.length_singleton]
    omega
  | notifiedNobody hdue hnobody => exact absurd hasleep hnobody
  | notified i hdue hi =>
    have hold := h.awake (mem_of_mem_set hasleep (by simp))
    have hcount := count_pulling_le hi (by simp)
    simp only [hcount]
    omega
  | slept i hi hopen hempty =>
    simp only [hempty, List.length_nil]
    exact Nat.zero_le _
  | left i hi hclosed =>
    simp only [h.emptied hclosed, List.length_nil]
    exact Nat.zero_le _
  | pulled i task queue hi hopen hqueue =>
    have hold := h.awake (mem_of_mem_set hasleep (by simp))
    have hcount := count_pulling_lt hi (.holding task) (by simp)
    rw [hqueue, List.length_cons] at hold
    simp only
    omega
  | woke i hi =>
    have hold := h.awake (mem_of_mem_set hasleep (by simp))
    have hcount := count_pulling_le hi (by simp)
    simp only [hcount]
    omega
  | skipped i task hi =>
    have hold := h.awake (mem_of_mem_set hasleep (by simp))
    have hcount := count_pulling_le hi (by simp)
    simp only [hcount]
    omega
  | called i task hi =>
    have hold := h.awake (mem_of_mem_set hasleep (by simp))
    have hcount := count_set hi (.running task) .pulling
    rw [if_neg (by simp), if_neg (by simp)] at hcount
    simp only [Nat.add_zero] at hcount
    rwa [← hcount] at hold
  | taskReturned i task hi =>
    have hold := h.awake (mem_of_mem_set hasleep (by simp))
    have hcount := count_pulling_le hi (by simp)
    simp only [hcount]
    omega
  | closed => exact Nat.zero_le _
  | notifiedAll =>
    obtain ⟨worker, -, hworker⟩ := List.mem_map.mp hasleep
    cases worker <;> cases hworker
  | _ => exact h.awake hasleep

theorem Alert.alarmed_step (h : Alert p) (hs : Stepped p event p') :
    .asleep ∈ p'.workers → p'.syncQueue.closed = true → p'.destructor = .notifying := by
  intro hasleep hclosed'
  cases hs with
  | accepted => cases hclosed'
  | notified => exact h.alarmed (mem_of_mem_set hasleep (by simp)) hclosed'
  | slept i hi hopen => exact absurd (hopen.symm.trans hclosed') Bool.false_ne_true
  | left => exact h.alarmed (mem_of_mem_set hasleep (by simp)) hclosed'
  | pulled => cases hclosed'
  | woke => exact h.alarmed (mem_of_mem_set hasleep (by simp)) hclosed'
  | skipped => exact h.alarmed (mem_of_mem_set hasleep (by simp)) hclosed'
  | called => exact h.alarmed (mem_of_mem_set hasleep (by simp)) hclosed'
  | taskReturned => exact h.alarmed (mem_of_mem_set hasleep (by simp)) hclosed'
  | closed => rfl
  | notifiedAll =>
    obtain ⟨worker, -, hworker⟩ := List.mem_map.mp hasleep
    cases worker <;> cases hworker
  | joined k hjoin => exact absurd (hjoin.symm.trans (h.alarmed hasleep hclosed')) (by simp)
  | _ => exact h.alarmed hasleep hclosed'

theorem Alert.left_step (h : Alert p) (hs : Stepped p event p') :
    .returned ∈ p'.workers → p'.syncQueue.closed = true := by
  intro hleft
  cases hs with
  | accepted cancellable hopen => exact absurd (hopen.symm.trans (h.left hleft)) Bool.false_ne_true
  | notified => exact h.left (mem_of_mem_set hleft (by simp))
  | slept => exact h.left (mem_of_mem_set hleft (by simp))
  | left i hi hclosed => exact hclosed
  | pulled i task queue hi hopen =>
    exact absurd (hopen.symm.trans (h.left (mem_of_mem_set hleft (by simp)))) Bool.false_ne_true
  | woke => exact h.left (mem_of_mem_set hleft (by simp))
  | skipped => exact h.left (mem_of_mem_set hleft (by simp))
  | called => exact h.left (mem_of_mem_set hleft (by simp))
  | taskReturned => exact h.left (mem_of_mem_set hleft (by simp))
  | closed => rfl
  | notifiedAll =>
    obtain ⟨worker, hmem, hworker⟩ := List.mem_map.mp hleft
    cases worker with
    | returned => exact h.left hmem
    | _ => cases hworker
  | _ => exact h.left hleft

theorem Alert.started_step (h : Alert p) (hs : Stepped p event p') :
    (p'.syncQueue.closed = false ↔ p'.destructor = .notStarted) ∧
      (p'.syncQueue.closed = true → p'.syncQueue.queue = []) := by
  cases hs with
  | accepted cancellable hopen =>
    exact ⟨iff_of_true rfl (h.started.mp hopen), nofun⟩
  | pulled i task queue hi hopen => exact ⟨iff_of_true rfl (h.started.mp hopen), nofun⟩
  | closed => exact ⟨by simp, fun _ => rfl⟩
  | notifiedAll hnotify =>
    refine ⟨?_, h.emptied⟩
    show p.syncQueue.closed = false ↔ _
    rw [h.started, hnotify]
    simp
  | joined k hjoin =>
    refine ⟨?_, h.emptied⟩
    show p.syncQueue.closed = false ↔ _
    rw [h.started, hjoin]
    simp
  | _ => exact ⟨h.started, h.emptied⟩

theorem length_workers_step (hs : Stepped p event p') :
    p'.workers.length = p.workers.length := by
  cases hs with
  | notified => exact List.length_set
  | slept => exact List.length_set
  | left => exact List.length_set
  | pulled => exact List.length_set
  | woke => exact List.length_set
  | skipped => exact List.length_set
  | called => exact List.length_set
  | taskReturned => exact List.length_set
  | notifiedAll => exact List.length_map _
  | _ => rfl

theorem Alert.joins_step (h : Alert p) (hs : Stepped p event p') :
    ∀ k, p'.destructor = .joining k → k ≤ p'.workers.length := by
  intro k hk
  have hlength := length_workers_step hs
  cases hs with
  | notifiedAll =>
    cases hk
    exact Nat.zero_le _
  | joined k' hjoin hk' =>
    cases hk
    exact (List.getElem?_eq_some_iff.mp hk').1
  | closed => cases hk
  | _ => exact hlength.symm ▸ h.joins k hk

/-- **Step.** -/
theorem alert_step (h : Alert p) (hs : Stepped p event p') : Alert p' where
  started := (h.started_step hs).1
  awake := h.awake_step hs
  emptied := (h.started_step hs).2
  alarmed := h.alarmed_step hs
  left := h.left_step hs
  joins := h.joins_step hs

end Steps

/-! ## What the pool does by itself -/

/-- What the pool does by itself, if its tasks return. -/
def own : Event → Bool
  | .scheduleTask _ | .wakeSpuriously _ | .cancelOperation _ | .close => false
  | .notifyOne _ | .lockMutex _ | .callTask _ | .taskReturns _ | .notifyAll | .join => true

/-- The pool can do nothing more by itself. -/
def AtRest (p : ThreadPoolTaskScheduler) : Prop := Settled step (fun event => own event = true) p

/-- The steps that a thread can still take before it sleeps. -/
def effort : Worker → ℕ
  | .asleep | .returned => 0
  | .pulling => 1
  | .running _ => 2
  | .holding _ => 3

/-- The steps that the destructor can still take, and those of the threads it wakes. -/
def ending (threadCount : ℕ) : Destructor → ℕ
  | .notStarted => 2 * threadCount + 2
  | .notifying => 2 * threadCount + 1
  | .joining joined => threadCount - joined

def potential (p : ThreadPoolTaskScheduler) : ℕ :=
  4 * p.syncQueue.queue.length + 2 * p.notifyOnes + (p.workers.map effort).sum +
    ending p.workers.length p.destructor

/-- The steps that a task brings with it, and those of a thread that was woken for nothing. -/
def cost : Event → ℕ
  | .scheduleTask _ => 6
  | .wakeSpuriously _ => 1
  | _ => 0

def work (event : Event) : ℕ := (own event).toNat

theorem effort_map_wake (workers : List Worker) :
    ((workers.map Worker.wake).map effort).sum ≤ (workers.map effort).sum + workers.length := by
  induction workers with
  | nil => exact Nat.le_refl _
  | cons worker workers ih =>
    have hone : effort worker.wake ≤ effort worker + 1 := by
      cases worker <;> simp [Worker.wake, effort]
    simp only [List.map_cons, List.sum_cons, List.length_cons]
    omega

section Potential

variable {p p' : ThreadPoolTaskScheduler} {event : Event}

theorem potential_step (hs : Stepped p event p') :
    potential p' + work event ≤ potential p + cost event := by
  cases hs with
  | rejected => exact Nat.le_add_right _ _
  | accepted =>
    simp only [potential, work, own, cost, Bool.toNat_false, List.length_append,
      List.length_singleton]
    omega
  | notifiedNobody hdue =>
    simp only [potential, work, own, cost, Bool.toNat_true]
    omega
  | notified i hdue hi =>
    have hsum := sum_map_set effort hi .pulling
    simp only [effort] at hsum
    simp only [potential, work, own, cost, Bool.toNat_true, List.length_set]
    omega
  | slept i hi =>
    have hsum := sum_map_set effort hi .asleep
    simp only [effort] at hsum
    simp only [potential, work, own, cost, Bool.toNat_true, List.length_set]
    omega
  | left i hi =>
    have hsum := sum_map_set effort hi .returned
    simp only [effort] at hsum
    simp only [potential, work, own, cost, Bool.toNat_true, List.length_set]
    omega
  | pulled i task queue hi hopen hqueue =>
    have hsum := sum_map_set effort hi (.holding task)
    simp only [effort] at hsum
    simp only [potential, work, own, cost, Bool.toNat_true, List.length_set, hqueue,
      List.length_cons]
    omega
  | woke i hi =>
    have hsum := sum_map_set effort hi .pulling
    simp only [effort] at hsum
    simp only [potential, work, own, cost, Bool.toNat_false, List.length_set]
    omega
  | skipped i task hi =>
    have hsum := sum_map_set effort hi .pulling
    simp only [effort] at hsum
    simp only [potential, work, own, cost, Bool.toNat_true, List.length_set]
    omega
  | called i task hi =>
    have hsum := sum_map_set effort hi (.running task)
    simp only [effort] at hsum
    simp only [potential, work, own, cost, Bool.toNat_true, List.length_set]
    omega
  | taskReturned i task hi =>
    have hsum := sum_map_set effort hi .pulling
    simp only [effort] at hsum
    simp only [potential, work, own, cost, Bool.toNat_true, List.length_set]
    omega
  | cancelled => exact Nat.le_refl _
  | closed hstart =>
    simp only [potential, work, own, cost, Bool.toNat_false, hstart, ending, List.length_nil]
    omega
  | notifiedAll hnotify =>
    have hsum := effort_map_wake p.workers
    simp only [potential, work, own, cost, Bool.toNat_true, hnotify, ending, List.length_map]
    omega
  | joined k hjoin hk =>
    have hlt := (List.getElem?_eq_some_iff.mp hk).1
    simp only [potential, work, own, cost, Bool.toNat_true, hjoin, ending]
    omega

end Potential

/-! ## At rest -/

section Rest

variable {p : ThreadPoolTaskScheduler}

/-- A pool at rest owes no notification, and its threads sleep or are gone. -/
theorem settled_workers (h : AtRest p) :
    p.notifyOnes = 0 ∧ ∀ worker ∈ p.workers, worker = .asleep ∨ worker = .returned := by
  have hworkers : ∀ worker ∈ p.workers, worker = .asleep ∨ worker = .returned := by
    intro worker hmem
    obtain ⟨i, hi⟩ := List.mem_iff_getElem?.mp hmem
    cases worker with
    | asleep => exact Or.inl rfl
    | returned => exact Or.inr rfl
    | pulling =>
      have hnone := h (.lockMutex i) rfl
      simp only [step, if_pos hi] at hnone
      cases hnone
    | holding task =>
      have hnone := h (.callTask i) rfl
      simp only [step, hi] at hnone
      cases hnone
    | running task =>
      have hnone := h (.taskReturns i) rfl
      simp only [step, hi] at hnone
      cases hnone
  refine ⟨?_, hworkers⟩
  by_contra hdue
  by_cases hasleep : .asleep ∈ p.workers
  · obtain ⟨i, hi⟩ := List.mem_iff_getElem?.mp hasleep
    have hnone := h (.notifyOne (some i)) rfl
    simp only [step, if_pos (And.intro hdue hi)] at hnone
    cases hnone
  · have hnone := h (.notifyOne none) rfl
    simp only [step, if_neg (not_or.mpr ⟨hdue, hasleep⟩)] at hnone
    cases hnone

/-- The converse, with what the destructor waits for. -/
theorem settled_of_idle (hdue : p.notifyOnes = 0)
    (hworkers : ∀ worker ∈ p.workers, worker = .asleep ∨ worker = .returned)
    (hnotify : p.destructor ≠ .notifying)
    (hjoin : ∀ k, p.destructor = .joining k → p.workers[k]? ≠ some .returned) :
    AtRest p := by
  have hidle : ∀ {i : ℕ} {worker : Worker}, p.workers[i]? = some worker →
      worker = .asleep ∨ worker = .returned :=
    fun hi => hworkers _ (List.mem_of_getElem? hi)
  intro event hown
  by_contra hsome
  obtain ⟨p', hp'⟩ := Option.ne_none_iff_exists'.mp hsome
  cases stepped_of_step hp' with
  | rejected => cases hown
  | accepted => cases hown
  | notifiedNobody hdue' => exact hdue' hdue
  | notified i hdue' => exact hdue' hdue
  | slept i hi => rcases hidle hi with heq | heq <;> cases heq
  | left i hi => rcases hidle hi with heq | heq <;> cases heq
  | pulled i task queue hi => rcases hidle hi with heq | heq <;> cases heq
  | woke => cases hown
  | skipped i task hi => rcases hidle hi with heq | heq <;> cases heq
  | called i task hi => rcases hidle hi with heq | heq <;> cases heq
  | taskReturned i task hi => rcases hidle hi with heq | heq <;> cases heq
  | cancelled => cases hown
  | closed => cases hown
  | notifiedAll hnotify' => exact hnotify hnotify'
  | joined k hjoin' hk => exact hjoin k hjoin' hk

/-- A pool at rest that is not being destroyed has nothing left in its queue. -/
theorem queue_of_settled (h : Alert p) (hrest : AtRest p) (hopen : p.syncQueue.closed = false)
    (hthreads : p.workers ≠ []) : p.syncQueue.queue = [] := by
  obtain ⟨hdue, hworkers⟩ := settled_workers hrest
  have hasleep : .asleep ∈ p.workers := by
    obtain ⟨worker, hmem⟩ := List.exists_mem_of_ne_nil _ hthreads
    rcases hworkers worker hmem with rfl | rfl
    · exact hmem
    · exact absurd (hopen.symm.trans (h.left hmem)) Bool.false_ne_true
  have hpulling : p.workers.count .pulling = 0 := by
    rw [List.count_eq_zero]
    intro hmem
    rcases hworkers _ hmem with heq | heq <;> cases heq
  have hlength := h.awake hasleep
  rw [hdue, hpulling] at hlength
  exact List.eq_nil_of_length_eq_zero (Nat.le_zero.mp hlength)

/-- A pool at rest whose queue was closed has been destroyed. -/
theorem destroyed_of_settled (h : Alert p) (hrest : AtRest p)
    (hclosed : p.syncQueue.closed = true) : p.destroyed = true := by
  obtain ⟨-, hworkers⟩ := settled_workers hrest
  cases hd : p.destructor with
  | notStarted => exact absurd ((h.started.mpr hd).symm.trans hclosed) Bool.false_ne_true
  | notifying =>
    have hnone := hrest .notifyAll rfl
    simp only [step, hd] at hnone
    cases hnone
  | joining k =>
    have hle := h.joins k hd
    have hall : p.workers.length ≤ k := by
      by_contra hlt
      have hk : p.workers[k]? = some p.workers[k] := List.getElem?_eq_getElem (not_le.mp hlt)
      have hmem : p.workers[k] ∈ p.workers := List.getElem_mem _
      rcases hworkers _ hmem with heq | heq
      · have hdestructor := h.alarmed (heq ▸ hmem) hclosed
        exact absurd (hd.symm.trans hdestructor) (by simp)
      · rw [heq] at hk
        have hnone := hrest .join rfl
        simp only [step, hd, if_pos hk] at hnone
        cases hnone
    simp only [destroyed, hd, decide_eq_true_eq]
    exact congrArg _ (le_antisymm hle hall)

/-- A pool at rest holds no task. -/
theorem tasks_of_settled (h : Handed p) (hrest : AtRest p) :
    (p.executed ++ p.skipped).Perm p.pulled := by
  obtain ⟨-, hworkers⟩ := settled_workers hrest
  rw [List.perm_iff_count]
  intro task
  have hheld : p.workers.count (.holding task) = 0 := by
    rw [List.count_eq_zero]
    intro hmem
    rcases hworkers _ hmem with heq | heq <;> cases heq
  rw [h.balance task, hheld, List.count_append, Nat.add_zero]

end Rest

/-! ## Every run -/

theorem handed_new (threadCount : ℕ) : Handed (new threadCount) where
  ids := nofun
  fresh := .nil
  waiting := fun _ => rfl
  order := List.prefix_rfl
  balance := fun task => by
    simp [new, List.count_replicate]
  skips := nofun

theorem alert_new (threadCount : ℕ) : Alert (new threadCount) where
  started := iff_of_true rfl rfl
  awake := fun _ => Nat.zero_le _
  emptied := fun _ => rfl
  alarmed := fun _ => nofun
  left := fun h => absurd (List.eq_of_mem_replicate h) (by simp)
  joins := fun _ => nofun

section Runs

variable {threadCount : ℕ} {events : List Event} {p : ThreadPoolTaskScheduler}

/-- **Run.** -/
theorem handed_run {s : ThreadPoolTaskScheduler} (h : Handed s)
    (hrun : runFrom step s events = some p) : Handed p :=
  invariant_of_steps Handed (fun _ _ _ h hstep => handed_step h (stepped_of_step hstep)) hrun h

/-- **Run.** -/
theorem alert_run {s : ThreadPoolTaskScheduler} (h : Alert s)
    (hrun : runFrom step s events = some p) : Alert p :=
  invariant_of_steps Alert (fun _ _ _ h hstep => alert_step h (stepped_of_step hstep)) hrun h

theorem length_workers_run {s : ThreadPoolTaskScheduler}
    (hrun : runFrom step s events = some p) : p.workers.length = s.workers.length :=
  invariant_of_steps (fun p => p.workers.length = s.workers.length)
    (fun _ _ _ h hstep => (length_workers_step (stepped_of_step hstep)).trans h) hrun rfl

/-- The tasks that a run submits before it closes the queue, the first one with this number. -/
def submitted : ℕ → List Event → List Task
  | _, [] => []
  | id, .scheduleTask cancellable :: events => ⟨id, cancellable⟩ :: submitted (id + 1) events
  | _, .close :: _ => []
  | id, _ :: events => submitted id events

theorem closed_step {s : ThreadPoolTaskScheduler} {event : Event} (hs : Stepped s event p)
    (hclosed : s.syncQueue.closed = true) :
    p.syncQueue.closed = true ∧ p.accepted = s.accepted ∧ p.pulled = s.pulled := by
  cases hs with
  | accepted cancellable hopen => exact absurd (hopen.symm.trans hclosed) Bool.false_ne_true
  | pulled i task queue hi hopen => exact absurd (hopen.symm.trans hclosed) Bool.false_ne_true
  | closed => exact ⟨rfl, rfl, rfl⟩
  | _ => exact ⟨hclosed, rfl, rfl⟩

/-- **Run.** Nothing goes in or out once the queue is closed. -/
theorem closed_run {s : ThreadPoolTaskScheduler} (hclosed : s.syncQueue.closed = true)
    (hrun : runFrom step s events = some p) :
    p.syncQueue.closed = true ∧ p.accepted = s.accepted ∧ p.pulled = s.pulled := by
  refine invariant_of_steps (fun q => q.syncQueue.closed = true ∧ q.accepted = s.accepted ∧
    q.pulled = s.pulled) (fun q event q' h hstep => ?_) hrun ⟨hclosed, rfl, rfl⟩
  obtain ⟨hclosed', haccepted, hpulled⟩ := closed_step (stepped_of_step hstep) h.1
  exact ⟨hclosed', haccepted.trans h.2.1, hpulled.trans h.2.2⟩

theorem accepted_run {s : ThreadPoolTaskScheduler} (hopen : s.syncQueue.closed = false)
    (hrun : runFrom step s events = some p) :
    p.accepted = s.accepted ++ submitted s.scheduled events := by
  induction events generalizing s with
  | nil =>
    cases hrun
    exact (List.append_nil _).symm
  | cons event events ih =>
    obtain ⟨m, hm, hrest⟩ := runFrom_cons.mp hrun
    have hlater := fun hopen' => ih (s := m) hopen' hrest
    cases stepped_of_step hm with
    | rejected cancellable hclosed => exact absurd (hopen.symm.trans hclosed) Bool.false_ne_true
    | accepted cancellable =>
      rw [hlater rfl, submitted]
      exact List.append_assoc _ _ _
    | closed =>
      rw [(closed_run rfl hrest).2.1, submitted, List.append_nil]
    | pulled => exact hlater rfl
    | left i hi hclosed => exact absurd (hopen.symm.trans hclosed) Bool.false_ne_true
    | _ => exact hlater hopen

/-- The task a thread has pulled and not called yet. -/
def heldTask : Worker → Option Task
  | .holding task => some task
  | _ => none

theorem count_heldTask (workers : List Worker) (task : Task) :
    (workers.filterMap heldTask).count task = workers.count (.holding task) := by
  induction workers with
  | nil => rfl
  | cons worker workers ih =>
    rw [List.count_cons, ← ih]
    cases worker with
    | holding other =>
      rw [List.filterMap_cons_some (f := heldTask) (b := other) rfl, List.count_cons]
      simp only [beq_iff_eq, Worker.holding.injEq]
    | _ =>
      rw [List.filterMap_cons_none (f := heldTask) rfl, if_neg (by simp)]
      rfl

theorem nodup_of_fresh {tasks : List Task} (h : tasks.Pairwise fun a b => a.id < b.id) :
    tasks.Nodup :=
  h.imp fun {a b} hlt heq => absurd hlt (by rw [heq]; exact Nat.lt_irrefl _)

/-- What the pool does by itself leaves its queue open, if it is, and takes no new task. -/
theorem own_step {s : ThreadPoolTaskScheduler} {event : Event} (hs : Stepped s event p)
    (hown : own event = true) :
    p.syncQueue.closed = s.syncQueue.closed ∧ p.accepted = s.accepted := by
  cases hs with
  | rejected => cases hown
  | accepted => cases hown
  | closed => cases hown
  | pulled i task queue hi hopen => exact ⟨hopen.symm, rfl⟩
  | _ => exact ⟨rfl, rfl⟩

theorem own_run {s : ThreadPoolTaskScheduler} (hown : ∀ event ∈ events, own event = true)
    (hrun : runFrom step s events = some p) :
    p.syncQueue.closed = s.syncQueue.closed ∧ p.accepted = s.accepted := by
  induction events generalizing s with
  | nil =>
    cases hrun
    exact ⟨rfl, rfl⟩
  | cons event events ih =>
    obtain ⟨m, hm, hrest⟩ := runFrom_cons.mp hrun
    have hfirst := own_step (stepped_of_step hm) (hown event List.mem_cons_self)
    have hlater := ih (fun event h => hown event (List.mem_cons_of_mem _ h)) hrest
    exact ⟨hlater.1.trans hfirst.1, hlater.2.trans hfirst.2⟩

theorem exists_rest (s : ThreadPoolTaskScheduler) :
    ∃ events p, (∀ event ∈ events, own event = true) ∧ runFrom step s events = some p ∧
      AtRest p := by
  refine exists_settled (fun _ => True) potential (fun _ _ _ _ _ => trivial) ?_ trivial
  intro q event q' _ hown hstep
  have hpotential := potential_step (stepped_of_step hstep)
  have hcost : cost event = 0 := by cases event <;> first | rfl | cases hown
  rw [work, hown, hcost] at hpotential
  exact hpotential

/-- A task that starts was in the hands of a thread. -/
theorem executed_step {s : ThreadPoolTaskScheduler} {event : Event} (hs : Stepped s event p)
    {task : Task} (h : task ∈ p.executed) : task ∈ s.executed ∨ .holding task ∈ s.workers := by
  cases hs with
  | called i other hi =>
    rcases List.mem_append.mp h with h | h
    · exact Or.inl h
    · rw [List.mem_singleton.mp h]
      exact Or.inr (List.mem_of_getElem? hi)
  | _ => exact Or.inl h

/-- Once the queue is closed, no thread gets a task that it did not hold. -/
theorem holding_step {s : ThreadPoolTaskScheduler} {event : Event} (hs : Stepped s event p)
    (hclosed : s.syncQueue.closed = true) {task : Task} (h : .holding task ∈ p.workers) :
    .holding task ∈ s.workers := by
  cases hs with
  | notified => exact mem_of_mem_set h (by simp)
  | slept => exact mem_of_mem_set h (by simp)
  | left => exact mem_of_mem_set h (by simp)
  | pulled i other queue hi hopen => exact absurd (hopen.symm.trans hclosed) Bool.false_ne_true
  | woke => exact mem_of_mem_set h (by simp)
  | skipped => exact mem_of_mem_set h (by simp)
  | called => exact mem_of_mem_set h (by simp)
  | taskReturned => exact mem_of_mem_set h (by simp)
  | notifiedAll =>
    obtain ⟨worker, hmem, hworker⟩ := List.mem_map.mp h
    rwa [(wake_eq_holding worker task).mp hworker] at hmem
  | _ => exact h

/-! ## Cancelled tasks -/

theorem mem_cancelled_step {s : ThreadPoolTaskScheduler} {event : Event}
    (hs : Stepped s event p) (id : ℕ) :
    id ∈ p.cancelled ↔ id ∈ s.cancelled ∨ event = .cancelOperation id := by
  cases hs with
  | cancelled other => simp [or_comm, eq_comm]
  | _ => simp

theorem mem_cancelled_run {s : ThreadPoolTaskScheduler}
    (hrun : runFrom step s events = some p) (id : ℕ) :
    id ∈ p.cancelled ↔ id ∈ s.cancelled ∨ .cancelOperation id ∈ events := by
  induction events generalizing s with
  | nil =>
    cases hrun
    simp
  | cons event events ih =>
    obtain ⟨m, hm, hrest⟩ := runFrom_cons.mp hrun
    rw [ih hrest, mem_cancelled_step (stepped_of_step hm), List.mem_cons, or_assoc,
      eq_comm (a := event)]

/-- What was called or skipped stays so. -/
theorem dealt_with_step {s : ThreadPoolTaskScheduler} {event : Event} (hs : Stepped s event p) :
    s.executed <+: p.executed ∧ s.skipped <+: p.skipped := by
  cases hs with
  | skipped => exact ⟨List.prefix_rfl, List.prefix_append _ _⟩
  | called => exact ⟨List.prefix_append _ _, List.prefix_rfl⟩
  | _ => exact ⟨List.prefix_rfl, List.prefix_rfl⟩

theorem dealt_with_run {s : ThreadPoolTaskScheduler} (hrun : runFrom step s events = some p) :
    s.executed <+: p.executed ∧ s.skipped <+: p.skipped :=
  invariant_of_steps (fun q => s.executed <+: q.executed ∧ s.skipped <+: q.skipped)
    (fun _ _ _ h hstep =>
      have hone := dealt_with_step (stepped_of_step hstep)
      ⟨h.1.trans hone.1, h.2.trans hone.2⟩) hrun ⟨List.prefix_rfl, List.prefix_rfl⟩

theorem Handed.dealt_with_once (h : Handed p) (task : Task) :
    p.executed.count task + p.skipped.count task + p.workers.count (.holding task) ≤ 1 := by
  rw [← h.balance task]
  exact List.nodup_iff_count.mp ((nodup_of_fresh h.fresh).sublist h.order.sublist) task

end Runs

/-! ## Results -/

section Results

variable (threadCount : ℕ) (events : List Event) {p : ThreadPoolTaskScheduler}

/-- **First in, first out, and to one thread each**: whatever the threads and the callers do and
in whatever order, the tasks are pulled in the order in which they were submitted, none of them
twice, and a task that was pulled is held, was called, or was skipped, and only one of these.
While the queue is open, the others wait in it. -/
theorem tasks_pulled_in_order (hrun : runFrom step (new threadCount) events = some p) :
    p.accepted = submitted 0 events ∧ p.accepted.Nodup ∧ p.pulled <+: p.accepted ∧
      (p.syncQueue.closed = false → p.accepted = p.pulled ++ p.syncQueue.queue) ∧
      (p.executed ++ p.skipped ++ p.workers.filterMap heldTask).Perm p.pulled := by
  have h := handed_run (handed_new threadCount) hrun
  refine ⟨accepted_run rfl hrun, nodup_of_fresh h.fresh, h.order, h.waiting, ?_⟩
  rw [List.perm_iff_count]
  intro task
  rw [h.balance task, List.count_append, List.count_append, count_heldTask]

theorem tasks_pulled_in_order_example :
    [Task.mk 0 false, ⟨1, true⟩] <+: [⟨0, false⟩, ⟨1, true⟩, ⟨2, false⟩] :=
  (tasks_pulled_in_order 2
    [.lockMutex 1, .scheduleTask false, .scheduleTask true, .lockMutex 0, .notifyOne (some 1),
      .scheduleTask false, .callTask 0, .cancelOperation 1, .lockMutex 1] rfl).2.2.1

/-- **No lost wake-up**: with a task in the queue, no thread sleeps for good. Either none of
them sleeps, or one is on its way to the mutex, or a notification is on its way to one. -/
theorem no_lost_wake_up (hrun : runFrom step (new threadCount) events = some p)
    (hqueue : p.syncQueue.queue ≠ []) :
    .asleep ∉ p.workers ∨ .pulling ∈ p.workers ∨ p.notifyOnes ≠ 0 := by
  have h := alert_run (alert_new threadCount) hrun
  by_contra hnone
  simp only [not_or, not_not] at hnone
  obtain ⟨hasleep, hpulling, hdue⟩ := hnone
  have hlength := h.awake hasleep
  rw [hdue, List.count_eq_zero.mpr hpulling] at hlength
  exact hqueue (List.eq_nil_of_length_eq_zero (Nat.le_zero.mp hlength))

theorem no_lost_wake_up_example :
    .asleep ∉ [Worker.pulling, .pulling] ∨ .pulling ∈ [Worker.pulling, .pulling] ∨ 1 ≠ 0 :=
  no_lost_wake_up 2
    [.lockMutex 1, .lockMutex 0, .scheduleTask false, .scheduleTask true, .notifyOne (some 0),
      .wakeSpuriously 1] rfl (List.cons_ne_nil _ _)

/-- **No task is left behind.** A pool with a thread that is not being destroyed can always come
to rest by itself, its tasks returning, and wherever it does, each task it was given has been
called once, or skipped once because its context was cancelled. -/
theorem every_task_is_dealt_with (hthreads : 0 < threadCount)
    (hrun : runFrom step (new threadCount) events = some p)
    (hopen : p.syncQueue.closed = false) :
    (∃ more p', (∀ event ∈ more, own event = true) ∧ runFrom step p more = some p' ∧
      AtRest p') ∧
    ∀ more p', (∀ event ∈ more, own event = true) → runFrom step p more = some p' →
      AtRest p' →
      (p'.executed ++ p'.skipped).Perm p.accepted ∧ (p'.executed ++ p'.skipped).Nodup ∧
        ∀ task ∈ p'.skipped, task.cancellable = true ∧ task.id ∈ p'.cancelled := by
  refine ⟨exists_rest p, fun more p' hown hmore hrest => ?_⟩
  have hhanded := handed_run (handed_run (handed_new threadCount) hrun) hmore
  have halert := alert_run (alert_run (alert_new threadCount) hrun) hmore
  obtain ⟨hclosed, haccepted⟩ := own_run hown hmore
  have hopen' : p'.syncQueue.closed = false := hclosed.trans hopen
  have hworkers : p'.workers ≠ [] := by
    intro hnil
    have hlength := (length_workers_run hmore).trans (length_workers_run hrun)
    rw [hnil, new, List.length_replicate] at hlength
    exact absurd hlength (Nat.ne_of_lt hthreads)
  have hqueue := queue_of_settled halert hrest hopen' hworkers
  have hall : p'.accepted = p'.pulled := by
    rw [hhanded.waiting hopen', hqueue, List.append_nil]
  have hperm : (p'.executed ++ p'.skipped).Perm p.accepted := by
    rw [← haccepted, hall]
    exact tasks_of_settled hhanded hrest
  refine ⟨hperm, hperm.nodup_iff.mpr ?_, hhanded.skips⟩
  rw [← haccepted]
  exact nodup_of_fresh hhanded.fresh

theorem every_task_is_dealt_with_example :
    ([Task.mk 0 false] ++ [Task.mk 1 true]).Perm [Task.mk 0 false, Task.mk 1 true] :=
  ((every_task_is_dealt_with 1 [.scheduleTask false, .scheduleTask true, .cancelOperation 1]
    (by decide) rfl rfl).2
    [.notifyOne none, .lockMutex 0, .callTask 0, .notifyOne none, .taskReturns 0, .lockMutex 0,
      .callTask 0, .lockMutex 0] _ (by decide) rfl
    (settled_of_idle rfl (by decide) nofun nofun)).1

/-- **The pool does not spin**: the steps it takes by itself are bounded by those that its
threads start with, six for each call of `ScheduleTask`, and one for each spurious waking. -/
theorem own_steps_le (hrun : runFrom step (new threadCount) events = some p) :
    events.countP own ≤
      3 * threadCount + 2 + 6 * events.countP (fun event => event matches .scheduleTask _) +
        events.countP (fun event => event matches .wakeSpuriously _) := by
  have hstart : potential (new threadCount) = 3 * threadCount + 2 := by
    have hefforts : ((List.replicate threadCount Worker.pulling).map effort).sum =
        threadCount := by
      rw [List.map_replicate, effort, List.sum_replicate_nat, Nat.mul_one]
    simp only [potential, new, SyncQueue.new, ending, List.length_nil, List.length_replicate,
      hefforts]
    omega
  have hwork := work_le_of_potential (fun _ => True) potential work cost
    (fun _ _ _ _ _ => trivial) (fun _ _ _ _ h => potential_step (stepped_of_step h)) trivial hrun
  have hown : ∀ events : List Event, (events.map work).sum = events.countP own := by
    intro events
    induction events with
    | nil => rfl
    | cons event events ih =>
      rw [List.map_cons, List.sum_cons, ih, List.countP_cons, work]
      cases own event <;> simp [Nat.add_comm]
  have hcost : ∀ events : List Event, (events.map cost).sum =
      6 * events.countP (fun event => event matches .scheduleTask _) +
        events.countP (fun event => event matches .wakeSpuriously _) := by
    intro events
    induction events with
    | nil => rfl
    | cons event events ih =>
      rw [List.map_cons, List.sum_cons, ih, List.countP_cons, List.countP_cons]
      cases event <;> simp [cost] <;> omega
  rw [hown, hcost, hstart] at hwork
  omega

theorem own_steps_le_example :
    [Event.lockMutex 0, .wakeSpuriously 0, .lockMutex 0, .scheduleTask false,
      .notifyOne (some 0)].countP own ≤ 12 :=
  own_steps_le 1 _ rfl

/-- **Shutdown.** From the locked part of `Close` on, nothing is pulled any more, so that only
tasks the threads already held are still called. The pool can come to rest by itself, its tasks
returning, and wherever it does, all threads have left and the destructor has joined them. -/
theorem shutdown_ends (hrun : runFrom step (new threadCount) events = some p)
    (hclosed : p.syncQueue.closed = true) :
    (∃ more p', (∀ event ∈ more, own event = true) ∧ runFrom step p more = some p' ∧
      AtRest p') ∧
    ∀ more p', runFrom step p more = some p' →
      p'.pulled = p.pulled ∧
      (∀ task ∈ p'.executed, task ∈ p.executed ∨ .holding task ∈ p.workers) ∧
      (AtRest p' →
        p'.destroyed = true ∧ ∀ worker ∈ p'.workers, worker = .returned) := by
  refine ⟨exists_rest p, fun more p' hmore => ?_⟩
  have halert := alert_run (alert_run (alert_new threadCount) hrun) hmore
  obtain ⟨hclosed', -, hpulled⟩ := closed_run hclosed hmore
  refine ⟨hpulled, ?_, fun hrest => ?_⟩
  · have hkept := invariant_of_steps (fun q => q.syncQueue.closed = true ∧
      (∀ task ∈ q.executed, task ∈ p.executed ∨ .holding task ∈ p.workers) ∧
      ∀ task, .holding task ∈ q.workers → .holding task ∈ p.workers)
      (fun q event q' h hstep => ?_) hmore ⟨hclosed, fun task => Or.inl, fun _ => id⟩
    · exact hkept.2.1
    · have hs := stepped_of_step hstep
      refine ⟨(closed_step hs h.1).1, fun task htask => ?_, fun task htask => ?_⟩
      · rcases executed_step hs htask with hold | hheld
        · exact h.2.1 task hold
        · exact Or.inr (h.2.2 task hheld)
      · exact h.2.2 task (holding_step hs h.1 htask)
  · have hdestroyed := destroyed_of_settled halert hrest hclosed'
    refine ⟨hdestroyed, fun worker hworker => ?_⟩
    obtain ⟨-, hworkers⟩ := settled_workers hrest
    rcases hworkers worker hworker with rfl | rfl
    · simp only [destroyed, decide_eq_true_eq] at hdestroyed
      exact absurd ((halert.alarmed hworker hclosed').symm.trans hdestroyed) (by simp)
    · rfl

theorem shutdown_ends_example :
    [Worker.returned, .returned].length = 2 ∧
      ∀ worker ∈ [Worker.returned, .returned], worker = .returned :=
  ⟨rfl, (((shutdown_ends 2
    [.scheduleTask false, .lockMutex 1, .lockMutex 0, .scheduleTask false, .close] rfl rfl).2
    [.callTask 1, .notifyAll, .lockMutex 0, .join, .notifyOne none, .taskReturns 1, .lockMutex 1,
      .notifyOne none, .join] _ rfl).2.2
    (settled_of_idle rfl (by decide) nofun (fun k h => by cases h; exact nofun))).2⟩

/-- **When a task is cancelled in time.** When a thread comes to call the task it holds, the
task has been neither called nor skipped. It is called iff no `CancelOperation` on the context
of its own has come before, and whatever happens afterwards, it is not called or skipped
again. -/
theorem executed_iff_not_cancelled (before after : List Event) {s : ThreadPoolTaskScheduler}
    (i : ℕ) (task : Task) (hbefore : runFrom step (new threadCount) before = some s)
    (hi : s.workers[i]? = some (.holding task))
    (hrun : runFrom step s (.callTask i :: after) = some p) :
    (task ∈ p.executed ↔ (task.cancellable = true → .cancelOperation task.id ∉ before)) ∧
      (p.executed ++ p.skipped).count task = 1 := by
  have hs := handed_run (handed_new threadCount) hbefore
  have hp := handed_run hs hrun
  have hcancelled : task.id ∈ s.cancelled ↔ .cancelOperation task.id ∈ before :=
    (mem_cancelled_run hbefore task.id).trans (or_iff_right List.not_mem_nil)
  have honce := hp.dealt_with_once task
  obtain ⟨m, hm, hafter⟩ := runFrom_cons.mp hrun
  obtain ⟨hexecuted, hskipped⟩ := dealt_with_run hafter
  rw [← hcancelled, List.count_append]
  cases stepped_of_step hm with
  | skipped _ other hi' hcancellable hin =>
    cases hi.symm.trans hi'
    have hone : 1 ≤ p.skipped.count task :=
      List.one_le_count_iff.mpr (hskipped.subset (List.mem_append_right _ List.mem_cons_self))
    have hnot : task ∉ p.executed := by
      rw [← List.count_eq_zero]
      omega
    exact ⟨iff_of_false hnot fun hgo => hgo hcancellable hin, by omega⟩
  | called _ other hi' hgo =>
    cases hi.symm.trans hi'
    have hin : task ∈ p.executed :=
      hexecuted.subset (List.mem_append_right _ List.mem_cons_self)
    have hone : 1 ≤ p.executed.count task := List.one_le_count_iff.mpr hin
    exact ⟨iff_of_true hin hgo, by omega⟩

theorem executed_iff_not_cancelled_example :
    Task.mk 0 true ∈ [Task.mk 0 true] ↔
      (true = true → .cancelOperation 0 ∉ [Event.scheduleTask true, .lockMutex 0]) := by
  have h := executed_iff_not_cancelled 1 [.scheduleTask true, .lockMutex 0]
    [.cancelOperation 0, .taskReturns 0] 0 ⟨0, true⟩ rfl rfl rfl
  exact h.1

end Results

end OlpEdgeSdk.Analysis.ThreadPoolRuns

import OlpEdgeSdk.Base.CallbackProgram
import OlpEdgeSdk.Base.Parties

/-!
# Programs in callback style side by side

A process runs a program under a cancellation context of its own, and any number of processes
share a store. A request answers once, at any time: late, on a thread of its own, or in the frame
of the call that has made it. A context is guarded by a recursive mutex, so one thread at a time
is inside it, running an `execute_fn` or cancelling.

Two rules carry a property of programs over to every run. A program `Follows` a specification if
what it asks for and replies is what the specification expects, however the other processes change
the store within the limits of `rely`; then so does every process (`follows_run`). A program is
`Guarded` if it makes its requests inside the context only; then a process that was cancelled makes
none (`asked_run`).
-/

set_option autoImplicit false

namespace OlpEdgeSdk.Base

variable {Op : Type} {Result : Op → Type} {Store Reply Arrival : Type}

/-- What a process does that can be seen from outside. -/
inductive Act (Op : Type) (Result : Op → Type) (Reply : Type) where
  | asked (op : Op)
  | answered (op : Op) (answer : Result op)
  | replied (r : Reply)

namespace Process

/-- Where a process is: about to go on, waiting for an answer, or done. -/
inductive Stage (Op : Type) (Result : Op → Type) (Store Reply : Type) where
  | ready (program : Program Op Result Store Reply)
  | waiting (op : Op) (next : Result op → Program Op Result Store Reply)
  | ended

/-- What the thread inside the context does there. -/
inductive Inside where
  | executing
  | cancelling
deriving DecidableEq

/-- What can happen to a process. -/
inductive Event (Op : Type) (Result : Op → Type) where
  /-- The program goes on by one node. -/
  | advance
  /-- The rest of the program is left to another thread. -/
  | detach
  /-- The request that is waited for answers. -/
  | answer (inFrame : Bool) (answers : (op : Op) → Result op)
  /-- The thread inside leaves the outermost `execute_fn`. -/
  | executeFnReturns
  /-- `CancelOperation` is called. -/
  | cancelOperation
  /-- `CancelOperation` has cancelled the token and returns. -/
  | cancelReturns

end Process

/-- A process: where it is, who is inside its context, whether the program goes on on the thread
that is inside, whether the context is cancelled, and what it has done. -/
structure Process (Op : Type) (Result : Op → Type) (Store Reply : Type) where
  stage : Process.Stage Op Result Store Reply
  inside : Option Process.Inside
  attached : Bool
  isCancelled : Bool
  history : List (Act Op Result Reply)

namespace Process

/-- A process that begins, outside its context. -/
def start (program : Program Op Result Store Reply) : Process Op Result Store Reply :=
  ⟨.ready program, none, false, false, []⟩

/-- The program is about to go on on the thread that is inside the context. -/
def busy (x : Process Op Result Store Reply) : Bool :=
  x.attached && match x.stage with
    | .ready _ => true
    | _ => false

/-- A program goes on by one node. The mutex of the context lets a thread in that is inside
already. -/
def advance (s : Store) (x : Process Op Result Store Reply) :
    Program Op Result Store Reply → Option (Store × Process Op Result Store Reply)
  | .reply r | .replyCaller r =>
    some (s, { x with stage := .ended, history := x.history ++ [.replied r] })
  | .read next => some (s, { x with stage := .ready (next s) })
  | .write change next => some (change s, { x with stage := .ready next })
  | .schedule task => some (s, { x with stage := .ready task })
  | .request op next =>
    some (s, { x with stage := .waiting op next, history := x.history ++ [.asked op] })
  | .executeOrCancelled body onCancel =>
    if x.inside.isSome && !x.attached then none
    else some (s, { x with
      stage := .ready (if x.isCancelled then onCancel else body)
      inside := some (x.inside.getD .executing)
      attached := true })

def step (s : Store) (x : Process Op Result Store Reply) :
    Event Op Result → Option (Store × Process Op Result Store Reply)
  | .advance =>
    match x.stage with
    | .ready program => advance s x program
    | _ => none
  | .detach =>
    match x.stage with
    | .ready (.schedule task) => some (s, { x with stage := .ready task, attached := false })
    | _ => none
  | .answer inFrame answers =>
    match x.stage with
    | .waiting op next =>
      -- `execute_fn` has not returned, or `cancel` calls the callback
      if inFrame && !(x.inside = some .cancelling || x.attached) then none
      else some (s, { x with
        stage := .ready (next (answers op))
        attached := inFrame
        history := x.history ++ [.answered op (answers op)] })
    | _ => none
  | .executeFnReturns =>
    if x.inside = some .executing ∧ x.busy = false then
      some (s, { x with inside := none, attached := false })
    else none
  | .cancelOperation =>
    if x.inside = none then
      some (s, if x.isCancelled then x else { x with inside := some .cancelling })
    else none
  | .cancelReturns =>
    if x.inside = some .cancelling ∧ x.busy = false then
      some (s, { x with inside := none, attached := false, isCancelled := true })
    else none

/-! ## What a step does -/

/-- What a step does to a store and a process, with one constructor for each thing that can
happen. -/
inductive Stepped (s : Store) (x : Process Op Result Store Reply) :
    Event Op Result → Store → Process Op Result Store Reply → Prop where
  | replied {program : Program Op Result Store Reply} (r : Reply)
      (hstage : x.stage = .ready program)
      (hprogram : program = .reply r ∨ program = .replyCaller r) :
      Stepped s x .advance s
        { x with stage := .ended, history := x.history ++ [.replied r] }
  | read {next : Store → Program Op Result Store Reply}
      (hstage : x.stage = .ready (.read next)) :
      Stepped s x .advance s { x with stage := .ready (next s) }
  | wrote {change : Store → Store} {next : Program Op Result Store Reply}
      (hstage : x.stage = .ready (.write change next)) :
      Stepped s x .advance (change s) { x with stage := .ready next }
  | scheduled {event : Event Op Result} {task : Program Op Result Store Reply} (attached : Bool)
      (hstage : x.stage = .ready (.schedule task))
      (hattached : attached = true → x.attached = true) :
      Stepped s x event s { x with stage := .ready task, attached := attached }
  | asked {op : Op} {next : Result op → Program Op Result Store Reply}
      (hstage : x.stage = .ready (.request op next)) :
      Stepped s x .advance s
        { x with stage := .waiting op next, history := x.history ++ [.asked op] }
  | entered {body onCancel : Program Op Result Store Reply}
      (hstage : x.stage = .ready (.executeOrCancelled body onCancel))
      (hinside : x.inside = none ∨ x.attached = true) :
      Stepped s x .advance s { x with
        stage := .ready (if x.isCancelled then onCancel else body)
        inside := some (x.inside.getD .executing)
        attached := true }
  | answered {op : Op} {next : Result op → Program Op Result Store Reply} (inFrame : Bool)
      (answers : (op : Op) → Result op) (hstage : x.stage = .waiting op next)
      (hinFrame : inFrame = true → x.inside = some .cancelling ∨ x.attached = true) :
      Stepped s x (.answer inFrame answers) s { x with
        stage := .ready (next (answers op))
        attached := inFrame
        history := x.history ++ [.answered op (answers op)] }
  | left (hinside : x.inside = some .executing) (hbusy : x.busy = false) :
      Stepped s x .executeFnReturns s { x with inside := none, attached := false }
  | cancels (hinside : x.inside = none) (hcancelled : x.isCancelled = false) :
      Stepped s x .cancelOperation s { x with inside := some .cancelling }
  | ignores (hinside : x.inside = none) (hcancelled : x.isCancelled = true) :
      Stepped s x .cancelOperation s x
  | cancelled (hinside : x.inside = some .cancelling) (hbusy : x.busy = false) :
      Stepped s x .cancelReturns s
        { x with inside := none, attached := false, isCancelled := true }

theorem stepped_of_step {s s' : Store} {x x' : Process Op Result Store Reply}
    {event : Event Op Result} (h : step s x event = some (s', x')) :
    Stepped s x event s' x' := by
  cases event with
  | advance =>
    cases hstage : x.stage with
    | ready program =>
      rw [step, hstage] at h
      cases program with
      | reply r =>
        cases h
        exact .replied r hstage (.inl rfl)
      | replyCaller r =>
        cases h
        exact .replied r hstage (.inr rfl)
      | read next =>
        cases h
        exact .read hstage
      | write change next =>
        cases h
        exact .wrote hstage
      | schedule task =>
        cases h
        exact .scheduled x.attached hstage id
      | request op next =>
        cases h
        exact .asked hstage
      | executeOrCancelled body onCancel =>
        simp only [advance, Bool.and_eq_true, Bool.not_eq_true', Option.ite_none_left_eq_some,
          not_and, Bool.not_eq_false, Option.isSome_iff_ne_none] at h
        obtain ⟨hinside, heq⟩ := h
        cases heq
        exact .entered hstage (or_iff_not_imp_left.mpr hinside)
    | waiting op next => simp [step, hstage] at h
    | ended => simp [step, hstage] at h
  | detach =>
    unfold step at h
    dsimp only at h
    split at h
    · rename_i task hstage
      cases h
      exact .scheduled false hstage nofun
    · cases h
  | answer inFrame answers =>
    unfold step at h
    dsimp only at h
    split at h
    · rename_i op next hstage
      split at h
      · cases h
      · rename_i hinFrame
        cases h
        refine .answered inFrame answers hstage fun htrue => ?_
        simpa [htrue, or_iff_not_imp_left] using hinFrame
    · cases h
  | executeFnReturns =>
    unfold step at h
    dsimp only at h
    split at h
    · rename_i hcan
      cases h
      exact .left hcan.1 hcan.2
    · cases h
  | cancelOperation =>
    unfold step at h
    dsimp only at h
    split at h
    · rename_i hinside
      by_cases hcancelled : x.isCancelled = true
      · rw [if_pos hcancelled] at h
        cases h
        exact .ignores hinside hcancelled
      · rw [if_neg hcancelled] at h
        cases h
        exact .cancels hinside (Bool.eq_false_iff.mpr hcancelled)
    · cases h
  | cancelReturns =>
    unfold step at h
    dsimp only at h
    split at h
    · rename_i hcan
      cases h
      exact .cancelled hcan.1 hcan.2
    · cases h

end Process

/-! ## Side by side -/

/-- A store, and the processes with what they were started for. -/
abbrev Processes (Op : Type) (Result : Op → Type) (Store Reply Arrival : Type) : Type :=
  Parties Store (Arrival × Process Op Result Store Reply)

namespace Processes

/-- A new process begins, or one that is there goes on. -/
def step (program : Arrival → Program Op Result Store Reply) :
    Processes Op Result Store Reply Arrival → Action Arrival (Process.Event Op Result) →
      Option (Processes Op Result Store Reply Arrival) :=
  Parties.step (fun arrival => (arrival, Process.start (program arrival)))
    fun s party event =>
      (Process.step s party.2 event).map fun after => (after.1, (party.1, after.2))

variable {program : Arrival → Program Op Result Store Reply}
  {s s' : Processes Op Result Store Reply Arrival}

/-- What a step does: a process begins, or one of them takes a step on the store. -/
theorem stepped {action : Action Arrival (Process.Event Op Result)}
    (h : step program s action = some s') :
    (∃ arrival, s' = ⟨s.shared, s.parties ++ [(arrival, Process.start (program arrival))]⟩) ∨
      ∃ i event arrival x store x', s.parties[i]? = some (arrival, x) ∧
        Process.Stepped s.shared x event store x' ∧
        s' = ⟨store, s.parties.set i (arrival, x')⟩ := by
  cases action with
  | join arrival =>
    cases h
    exact .inl ⟨arrival, rfl⟩
  | act i event =>
    obtain ⟨⟨arrival, x⟩, store, party', hi, hact, rfl⟩ := Parties.step_act h
    obtain ⟨⟨store', x'⟩, hstep, heq⟩ := Option.map_eq_some_iff.mp hact
    cases heq
    exact .inr ⟨i, event, arrival, x, _, x', hi, Process.stepped_of_step hstep, rfl⟩

end Processes

/-! ## Specifications -/

section Follows

variable {Spec : Type} (rely : Store → Store → Prop)
  (spec : Spec → Act Op Result Reply → Option Spec)

/-- From a store and a state of the specification on, what the program does is expected. The
others may change the store as `rely` has it, and so may the program. -/
def Program.Follows : Program Op Result Store Reply → Store → Spec → Prop
  | .reply r, _, q | .replyCaller r, _, q => (spec q (.replied r)).isSome
  | .read next, s, q => ∀ s', rely s s' → Follows (next s') s' q
  | .write change next, s, q => ∀ s', rely s s' → rely s' (change s') ∧ Follows next (change s') q
  | .schedule task, s, q => Follows task s q
  | .request op next, s, q => ∃ asked, spec q (.asked op) = some asked ∧
      ∀ answer s', rely s s' → ∃ answered, spec asked (.answered op answer) = some answered ∧
        Follows (next answer) s' answered
  | .executeOrCancelled body onCancel, s, q => Follows body s q ∧ Follows onCancel s q

variable {rely spec} (hrefl : ∀ s, rely s s)
  (htrans : ∀ s s' s'', rely s s' → rely s' s'' → rely s s'')

include htrans in
theorem Program.Follows.mono {program : Program Op Result Store Reply} {s s' : Store} {q : Spec}
    (h : program.Follows rely spec s q) (hs : rely s s') : program.Follows rely spec s' q := by
  induction program generalizing q with
  | reply r => exact h
  | replyCaller r => exact h
  | read next ih => exact fun s'' hs' => h s'' (htrans s s' s'' hs hs')
  | write change next ih => exact fun s'' hs' => h s'' (htrans s s' s'' hs hs')
  | schedule task ih => exact ih h
  | request op next ih =>
    obtain ⟨asked, hasked, hanswer⟩ := h
    exact ⟨asked, hasked, fun answer s'' hs' => hanswer answer s'' (htrans s s' s'' hs hs')⟩
  | executeOrCancelled body onCancel ih ih' => exact ⟨ih h.1, ih' h.2⟩

variable (rely spec) in
/-- What a process goes on to do is expected. -/
def Process.Stage.Follows (s : Store) (q : Spec) : Process.Stage Op Result Store Reply → Prop
  | .ready program => program.Follows rely spec s q
  | .waiting op next => ∀ answer s', rely s s' →
      ∃ answered, spec q (.answered op answer) = some answered ∧
        (next answer).Follows rely spec s' answered
  | .ended => True

variable (rely spec) in
/-- The history of a process is expected, and so is what it goes on to do. -/
def Process.Follows (initial : Spec) (s : Store) (x : Process Op Result Store Reply) : Prop :=
  ∃ q, runFrom spec initial x.history = some q ∧ x.stage.Follows rely spec s q

include htrans in
theorem Process.Follows.mono {initial : Spec} {s s' : Store} {x : Process Op Result Store Reply}
    (h : x.Follows rely spec initial s) (hs : rely s s') : x.Follows rely spec initial s' := by
  obtain ⟨q, hq, hstage⟩ := h
  refine ⟨q, hq, ?_⟩
  cases hx : x.stage with
  | ready program =>
    rw [hx] at hstage
    exact Program.Follows.mono htrans hstage hs
  | waiting op next =>
    rw [hx] at hstage
    exact fun answer s'' hs' => hstage answer s'' (htrans s s' s'' hs hs')
  | ended => trivial

include hrefl in
/-- **Step.** A process goes on to do what is expected, and changes the store as the others rely
on. -/
theorem Process.follows_step {initial : Spec} {s s' : Store} {x x' : Process Op Result Store Reply}
    {event : Process.Event Op Result} (h : x.Follows rely spec initial s)
    (hstep : Process.Stepped s x event s' x') :
    rely s s' ∧ x'.Follows rely spec initial s' := by
  obtain ⟨q, hq, hstage⟩ := h
  cases hstep with
  | replied r hx hprogram =>
    rw [hx] at hstage
    have hr : (spec q (.replied r)).isSome := by
      obtain rfl | rfl := hprogram
      · exact hstage
      · exact hstage
    obtain ⟨q', hq'⟩ := Option.isSome_iff_exists.mp hr
    exact ⟨hrefl s, q', runFrom_concat.mpr ⟨q, hq, hq'⟩, trivial⟩
  | read hx =>
    rw [hx] at hstage
    exact ⟨hrefl s, q, hq, hstage s (hrefl s)⟩
  | wrote hx =>
    rw [hx] at hstage
    obtain ⟨hchange, hnext⟩ := hstage s (hrefl s)
    exact ⟨hchange, q, hq, hnext⟩
  | scheduled attached hx =>
    rw [hx] at hstage
    exact ⟨hrefl s, q, hq, hstage⟩
  | asked hx =>
    rw [hx] at hstage
    obtain ⟨asked, hasked, hanswer⟩ := hstage
    exact ⟨hrefl s, asked, runFrom_concat.mpr ⟨q, hq, hasked⟩, hanswer⟩
  | entered hx =>
    rw [hx] at hstage
    refine ⟨hrefl s, q, hq, ?_⟩
    show Program.Follows rely spec (if x.isCancelled then _ else _) s q
    split
    · exact hstage.2
    · exact hstage.1
  | answered inFrame answers hx =>
    rw [hx] at hstage
    obtain ⟨answered, hanswered, hnext⟩ := hstage (answers _) s (hrefl s)
    exact ⟨hrefl s, answered, runFrom_concat.mpr ⟨q, hq, hanswered⟩, hnext⟩
  | left | cancels | ignores | cancelled => exact ⟨hrefl s, q, hq, hstage⟩

end Follows

/-- **Run.** If every program follows its specification from every store that the processes can
make of the first, then in every run each process does what is expected of it. -/
theorem Processes.follows_run {Spec : Type} {rely : Store → Store → Prop}
    {spec : Arrival → Spec → Act Op Result Reply → Option Spec} {initial : Arrival → Spec}
    (hrefl : ∀ s, rely s s) (htrans : ∀ s s' s'', rely s s' → rely s' s'' → rely s s'')
    {program : Arrival → Program Op Result Store Reply} {first : Store}
    (hprogram : ∀ arrival s, rely first s →
      (program arrival).Follows rely (spec arrival) s (initial arrival))
    {events : List (Action Arrival (Process.Event Op Result))}
    {s : Processes Op Result Store Reply Arrival}
    (hrun : runFrom (Processes.step program) ⟨first, []⟩ events = some s) :
    rely first s.shared ∧ ∀ party ∈ s.parties,
      party.2.Follows rely (spec party.1) (initial party.1) s.shared := by
  refine invariant_of_steps (fun s => rely first s.shared ∧ ∀ party ∈ s.parties,
    party.2.Follows rely (spec party.1) (initial party.1) s.shared) ?_ hrun ⟨hrefl first, nofun⟩
  rintro s action s' ⟨hstore, hparties⟩ hstep
  obtain ⟨arrival, rfl⟩ | ⟨i, event, arrival, x, store, x', hi, hx, rfl⟩ :=
    Processes.stepped hstep
  · refine ⟨hstore, fun party hparty => ?_⟩
    obtain hparty | hparty := List.mem_append.mp hparty
    · exact hparties party hparty
    · rw [List.mem_singleton.mp hparty]
      exact ⟨initial arrival, rfl, hprogram arrival s.shared hstore⟩
  · obtain ⟨hrely, hfollows⟩ :=
      Process.follows_step hrefl (hparties _ (List.mem_of_getElem? hi)) hx
    refine ⟨htrans _ _ _ hstore hrely, fun party hparty => ?_⟩
    obtain hparty | rfl := List.mem_or_eq_of_mem_set hparty
    · exact (hparties party hparty).mono htrans hrely
    · exact hfollows

/-! ## Replies -/

/-- The replies that are in a history. -/
def repliesOf (history : List (Act Op Result Reply)) : List Reply :=
  history.filterMap fun
    | .replied r => some r
    | _ => none

/-- A process has replied once if it is done, and else not at all. -/
def Process.RepliesOnce (x : Process Op Result Store Reply) : Prop :=
  match x.stage with
  | .ended => ∃ r, repliesOf x.history = [r]
  | .ready _ | .waiting _ _ => repliesOf x.history = []

/-- **Step.** Only the end of a program replies. -/
theorem Process.repliesOnce_step {s s' : Store} {x x' : Process Op Result Store Reply}
    {event : Process.Event Op Result} (h : x.RepliesOnce)
    (hstep : Process.Stepped s x event s' x') : x'.RepliesOnce := by
  unfold RepliesOnce at h
  cases hstep with
  | replied r hx =>
    rw [hx] at h
    exact ⟨r, by simpa [repliesOf] using h⟩
  | read hx | wrote hx | scheduled _ hx | entered hx =>
    rw [hx] at h
    exact h
  | asked hx =>
    rw [hx] at h
    simpa [RepliesOnce, repliesOf] using h
  | answered _ _ hx =>
    rw [hx] at h
    simpa [RepliesOnce, repliesOf] using h
  | left | cancels | ignores | cancelled => exact h

/-! ## Cancelled processes -/

/-- The requests that are in a history. -/
def requestsOf (history : List (Act Op Result Reply)) : List Op :=
  history.filterMap fun
    | .asked op => some op
    | _ => none

@[simp] theorem requestsOf_append (history history' : List (Act Op Result Reply)) :
    requestsOf (history ++ history') = requestsOf history ++ requestsOf history' :=
  List.filterMap_append

/-- The requests of the program are made inside the context, if it begins inside or not. -/
def Program.Guarded : Bool → Program Op Result Store Reply → Prop
  | _, .reply _ | _, .replyCaller _ => True
  | inside, .read next => ∀ s, Guarded inside (next s)
  | inside, .write _ next => Guarded inside next
  | _, .schedule task => Guarded false task
  | inside, .request _ next => inside = true ∧ ∀ answer, Guarded false (next answer)
  | _, .executeOrCancelled body onCancel => Guarded true body ∧ Guarded false onCancel

theorem Program.Guarded.mono {program : Program Op Result Store Reply}
    (h : program.Guarded false) (inside : Bool) : program.Guarded inside := by
  induction program with
  | reply r => trivial
  | replyCaller r => trivial
  | read next ih => exact fun s => ih s (h s)
  | write change next ih => exact ih h
  | schedule task ih => exact h
  | request op next ih => exact absurd h.1 Bool.false_ne_true
  | executeOrCancelled body onCancel ih ih' => exact h

/-- What a process goes on to do is guarded. -/
def Process.Stage.Guarded (inside : Bool) : Process.Stage Op Result Store Reply → Prop
  | .ready program => program.Guarded inside
  | .waiting _ next => ∀ answer, (next answer).Guarded false
  | .ended => True

/-- A process makes its requests inside the context: the program has entered it, and it has not
been cancelled since, or an entry is still to come. -/
structure Process.Guarded (x : Process Op Result Store Reply) : Prop where
  attached : x.attached = true → x.inside ≠ none
  goes : x.stage.Guarded (x.attached && !x.isCancelled)

/-- The thread inside leaves the context behind: an entry is still to come. -/
theorem Process.Guarded.leaves {x : Process Op Result Store Reply} (h : x.Guarded)
    (hbusy : x.busy = false) (inside : Bool) : x.stage.Guarded inside := by
  have hgoes := h.goes
  cases hx : x.stage with
  | ready program =>
    have hattached : x.attached = false := by simpa [busy, hx] using hbusy
    rw [hx, hattached] at hgoes
    exact Program.Guarded.mono hgoes inside
  | waiting op next =>
    rw [hx] at hgoes
    exact hgoes
  | ended => trivial

/-- **Step.** A guarded process stays so. Once it is cancelled it asks for nothing. -/
theorem Process.guarded_step {s s' : Store} {x x' : Process Op Result Store Reply}
    {event : Process.Event Op Result} (h : x.Guarded) (hstep : Process.Stepped s x event s' x') :
    x'.Guarded ∧ (x.isCancelled = true →
      x'.isCancelled = true ∧ requestsOf x'.history = requestsOf x.history) := by
  have hattached := h.attached
  have hgoes := h.goes
  cases hstep with
  | replied r hx => exact ⟨⟨hattached, trivial⟩, fun h => ⟨h, by simp [requestsOf]⟩⟩
  | read hx =>
    rw [hx] at hgoes
    exact ⟨⟨hattached, hgoes s⟩, fun h => ⟨h, rfl⟩⟩
  | wrote hx =>
    rw [hx] at hgoes
    exact ⟨⟨hattached, hgoes⟩, fun h => ⟨h, rfl⟩⟩
  | scheduled attached hx hstays =>
    rw [hx] at hgoes
    exact ⟨⟨fun h => hattached (hstays h), Program.Guarded.mono hgoes _⟩, fun h => ⟨h, rfl⟩⟩
  | asked hx =>
    rw [hx] at hgoes
    refine ⟨⟨hattached, hgoes.2⟩, fun h => ?_⟩
    have hinside := hgoes.1
    rw [h, Bool.not_true, Bool.and_false] at hinside
    exact absurd hinside Bool.false_ne_true
  | entered hx hinside =>
    rw [hx] at hgoes
    refine ⟨⟨fun _ => Option.some_ne_none _, ?_⟩, fun h => ⟨h, rfl⟩⟩
    show Program.Guarded (true && !x.isCancelled) (if x.isCancelled then _ else _)
    cases x.isCancelled with
    | false => exact hgoes.1
    | true => exact hgoes.2
  | answered inFrame answers hx hinFrame =>
    rw [hx] at hgoes
    refine ⟨⟨fun h => ?_, Program.Guarded.mono (hgoes _) _⟩, fun h => ⟨h, by simp [requestsOf]⟩⟩
    obtain hcancelling | hattached' := hinFrame h
    · rw [hcancelling]
      exact Option.some_ne_none _
    · exact hattached hattached'
  | left hinside hbusy =>
    exact ⟨⟨nofun, h.leaves hbusy _⟩, fun h => ⟨h, rfl⟩⟩
  | cancels hinside hcancelled =>
    exact ⟨⟨fun _ => Option.some_ne_none _, hgoes⟩, fun h => ⟨h, rfl⟩⟩
  | ignores hinside => exact ⟨⟨hattached, hgoes⟩, fun h => ⟨h, rfl⟩⟩
  | cancelled hinside hbusy =>
    exact ⟨⟨nofun, h.leaves hbusy _⟩, fun _ => ⟨rfl, rfl⟩⟩

namespace Processes

variable {program : Arrival → Program Op Result Store Reply} {first : Store}
  {s s' : Processes Op Result Store Reply Arrival}
  {events more : List (Action Arrival (Process.Event Op Result))}

/-- **Run.** Every process replies once, at its end. -/
theorem repliesOnce_run (hrun : runFrom (step program) ⟨first, []⟩ events = some s) :
    ∀ party ∈ s.parties, party.2.RepliesOnce := by
  refine invariant_of_steps (fun s => ∀ party ∈ s.parties, party.2.RepliesOnce) ?_ hrun nofun
  rintro s action s' hs hstep
  refine Parties.forall_step (P := fun party => party.2.RepliesOnce) (fun _ => rfl) ?_ hs hstep
  intro shared party event shared' party' hparty hact
  obtain ⟨after, hstep, heq⟩ := Option.map_eq_some_iff.mp hact
  cases heq
  exact Process.repliesOnce_step hparty (Process.stepped_of_step hstep)

section Guarded

variable (hprogram : ∀ arrival, (program arrival).Guarded false)
include hprogram

theorem guarded_run (hrun : runFrom (step program) ⟨first, []⟩ events = some s) :
    ∀ party ∈ s.parties, party.2.Guarded := by
  refine invariant_of_steps (fun s => ∀ party ∈ s.parties, party.2.Guarded) ?_ hrun nofun
  rintro s action s' hs hstep
  refine Parties.forall_step (P := fun party => party.2.Guarded) ?_ ?_ hs hstep
  · exact fun arrival => ⟨nofun, hprogram arrival⟩
  · intro shared party event shared' party' hparty hact
    obtain ⟨after, hstep, heq⟩ := Option.map_eq_some_iff.mp hact
    cases heq
    exact (Process.guarded_step hparty (Process.stepped_of_step hstep)).1

/-- **Run.** A process of guarded programs asks for nothing more once it has been cancelled. -/
theorem asked_run (hrun : runFrom (step program) ⟨first, []⟩ events = some s) {i : ℕ}
    {arrival : Arrival} {x : Process Op Result Store Reply}
    (hi : s.parties[i]? = some (arrival, x)) (hcancelled : x.isCancelled = true)
    (hmore : runFrom (step program) s more = some s') :
    ∃ x', s'.parties[i]? = some (arrival, x') ∧ x'.isCancelled = true ∧
      requestsOf x'.history = requestsOf x.history := by
  have hguarded := guarded_run hprogram hrun
  refine (invariant_of_steps (fun s => (∀ party ∈ s.parties, party.2.Guarded) ∧
    ∃ x', s.parties[i]? = some (arrival, x') ∧ x'.isCancelled = true ∧
      requestsOf x'.history = requestsOf x.history) ?_ hmore
    ⟨hguarded, x, hi, hcancelled, rfl⟩).2
  rintro m action m' ⟨hm, x', hx', hcancelled', hasked⟩ hstep
  obtain ⟨other, rfl⟩ | ⟨j, event, other, y, store, y', hj, hy, rfl⟩ := stepped hstep
  · refine ⟨fun party hparty => ?_, x', ?_, hcancelled', hasked⟩
    · obtain hparty | hparty := List.mem_append.mp hparty
      · exact hm party hparty
      · rw [List.mem_singleton.mp hparty]
        exact ⟨nofun, hprogram other⟩
    · rw [List.getElem?_append_left (List.getElem?_eq_some_iff.mp hx').1]
      exact hx'
  · obtain ⟨hkept, hquiet⟩ := Process.guarded_step (hm _ (List.mem_of_getElem? hj)) hy
    refine ⟨fun party hparty => ?_, ?_⟩
    · obtain hparty | rfl := List.mem_or_eq_of_mem_set hparty
      · exact hm party hparty
      · exact hkept
    · by_cases hij : j = i
      · subst hij
        cases hj.symm.trans hx'
        obtain ⟨hstays, hsame⟩ := hquiet hcancelled'
        exact ⟨y', List.getElem?_set_self (List.getElem?_eq_some_iff.mp hj).1, hstays,
          hsame.trans hasked⟩
      · exact ⟨x', (List.getElem?_set_ne hij).trans hx', hcancelled', hasked⟩

end Guarded

/-! ## Progress -/

/-- The steps that a process takes by itself. -/
def own : Process.Event Op Result → Bool
  | .advance | .executeFnReturns | .cancelReturns => true
  | .detach | .answer _ _ | .cancelOperation => false

end Processes

/-- A process on its own. -/
def Process.alone (w : Store × Process Op Result Store Reply) (event : Process.Event Op Result) :
    Option (Store × Process Op Result Store Reply) :=
  Process.step w.1 w.2 event

/-- The way into the context becomes free. -/
theorem Process.exists_free (s : Store) (x : Process Op Result Store Reply)
    (hattached : x.attached = false) :
    ∃ events x', (∀ event ∈ events, Processes.own event = true) ∧
      runFrom Process.alone (s, x) events = some (s, x') ∧ x'.stage = x.stage ∧
      x'.inside = none := by
  have hbusy : x.busy = false := by simp [busy, hattached]
  cases hinside : x.inside with
  | none => exact ⟨[], x, nofun, rfl, rfl, hinside⟩
  | some inside =>
    cases inside with
    | executing =>
      refine ⟨[.executeFnReturns], _, by simp [Processes.own], runFrom_cons.mpr
        ⟨_, if_pos ⟨hinside, hbusy⟩, rfl⟩, rfl, rfl⟩
    | cancelling =>
      refine ⟨[.cancelReturns], _, by simp [Processes.own], runFrom_cons.mpr
        ⟨_, if_pos ⟨hinside, hbusy⟩, rfl⟩, rfl, rfl⟩

/-- By itself, a process gets to where it waits for an answer or is done. -/
def Process.ComesToRest (s : Store) (x : Process Op Result Store Reply) : Prop :=
  ∃ events s' x', (∀ event ∈ events, Processes.own event = true) ∧
    runFrom Process.alone (s, x) events = some (s', x') ∧ ∀ program, x'.stage ≠ .ready program

theorem Process.comesToRest_of_advance {s s' : Store} {x x' : Process Op Result Store Reply}
    {program : Program Op Result Store Reply} (hx : x.stage = .ready program)
    (hadvance : advance s x program = some (s', x')) (h : x'.ComesToRest s') :
    x.ComesToRest s := by
  obtain ⟨events, s'', x'', hown, hrun, hidle⟩ := h
  have hstep : alone (s, x) .advance = some (s', x') := by
    simp only [alone, step, hx]
    exact hadvance
  exact ⟨.advance :: events, s'', x'', by simpa [Processes.own] using hown,
    runFrom_cons.mpr ⟨_, hstep, hrun⟩, hidle⟩

/-- **A process comes to rest**, wherever it is: the induction is on its program. -/
theorem Process.comesToRest (program : Program Op Result Store Reply) (s : Store)
    (x : Process Op Result Store Reply) (hx : x.stage = .ready program) : x.ComesToRest s := by
  induction program generalizing s x with
  | reply r =>
    exact comesToRest_of_advance hx rfl ⟨[], s, _, nofun, rfl, nofun⟩
  | replyCaller r =>
    exact comesToRest_of_advance hx rfl ⟨[], s, _, nofun, rfl, nofun⟩
  | read next ih => exact comesToRest_of_advance hx rfl (ih s s _ rfl)
  | write change next ih => exact comesToRest_of_advance hx rfl (ih (change s) _ rfl)
  | schedule task ih => exact comesToRest_of_advance hx rfl (ih s _ rfl)
  | request op next ih =>
    exact comesToRest_of_advance hx rfl ⟨[], s, _, nofun, rfl, nofun⟩
  | executeOrCancelled body onCancel ih ih' =>
    have hbranch : ∀ y : Process Op Result Store Reply,
        y.stage = .ready (if y.isCancelled then onCancel else body) → y.ComesToRest s := by
      intro y hy
      split at hy
      · exact ih' s y hy
      · exact ih s y hy
    cases hattached : x.attached with
    | true =>
      exact comesToRest_of_advance hx (if_neg (by simp [hattached])) (hbranch _ rfl)
    | false =>
      -- the thread that is inside leaves first
      obtain ⟨events, y, hown, hrun, hstage, hinside⟩ := exists_free s x hattached
      obtain ⟨more, s', x', hown', hrun', hidle⟩ := comesToRest_of_advance (hstage.trans hx)
        (if_neg (by simp [hinside])) (hbranch _ rfl)
      refine ⟨events ++ more, s', x', ?_, ?_, hidle⟩
      · intro event hevent
        obtain hevent | hevent := List.mem_append.mp hevent
        · exact hown event hevent
        · exact hown' event hevent
      · rw [runFrom_append, hrun]
        exact hrun'

namespace Processes

/-- What a process does alone it does among the others. -/
theorem run_act {program : Arrival → Program Op Result Store Reply}
    {s : Processes Op Result Store Reply Arrival} {i : ℕ} {arrival : Arrival}
    {events : List (Process.Event Op Result)} {x x' : Process Op Result Store Reply} {store : Store}
    (hi : s.parties[i]? = some (arrival, x))
    (hrun : runFrom Process.alone (s.shared, x) events = some (store, x')) :
    runFrom (step program) s (events.map (.act i)) =
      some ⟨store, s.parties.set i (arrival, x')⟩ := by
  induction events generalizing s x with
  | nil =>
    cases hrun
    obtain ⟨hlt, hget⟩ := List.getElem?_eq_some_iff.mp hi
    rw [← hget, List.set_getElem_self hlt]
    rfl
  | cons event events ih =>
    obtain ⟨⟨store', y⟩, hstep, hrest⟩ := runFrom_cons.mp hrun
    have hact : step program s (.act i event) =
        some ⟨store', s.parties.set i (arrival, y)⟩ := by
      have hstep' : Process.step s.shared x event = some (store', y) := hstep
      simp [step, Parties.step, hi, hstep']
    have hset : (s.parties.set i (arrival, y))[i]? = some (arrival, y) :=
      List.getElem?_set_self (List.getElem?_eq_some_iff.mp hi).1
    refine runFrom_cons.mpr ⟨_, hact, (ih hset hrest).trans ?_⟩
    rw [List.set_set]

/-- **No process is stuck**: it can go on by itself to where it waits for an answer or is
done, whatever the others do. -/
theorem exists_idle (program : Arrival → Program Op Result Store Reply)
    (s : Processes Op Result Store Reply Arrival) {i : ℕ} {arrival : Arrival}
    {x : Process Op Result Store Reply} (hi : s.parties[i]? = some (arrival, x)) :
    ∃ (events : List (Process.Event Op Result)) (store : Store)
      (x' : Process Op Result Store Reply), (∀ event ∈ events, own event = true) ∧
      runFrom (step program) s (events.map (.act i)) =
        some ⟨store, s.parties.set i (arrival, x')⟩ ∧
      ∀ program', x'.stage ≠ .ready program' := by
  have hrest : x.ComesToRest s.shared := by
    cases hx : x.stage with
    | ready program' => exact Process.comesToRest program' s.shared x hx
    | waiting op next => exact ⟨[], s.shared, x, nofun, rfl, by simp [hx]⟩
    | ended => exact ⟨[], s.shared, x, nofun, rfl, by simp [hx]⟩
  obtain ⟨events, store, x', hown, hrun, hidle⟩ := hrest
  exact ⟨events, store, x', hown, run_act hi hrun, hidle⟩

end Processes

end OlpEdgeSdk.Base

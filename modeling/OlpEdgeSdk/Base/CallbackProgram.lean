import Mathlib.Logic.Basic

/-!
# Programs in callback style

A function that takes a callback and starts requests with callbacks of their own is written as
a tree: each node is something the function does, and the continuation of a request is the
callback it is given. A tree has two meanings. `eval` runs it to its end with the requests
answered one after another; and a system of trees that run side by side, with answers that
come late and cancellations, can be built over it as a step relation.

The store is what a program reads and writes on the way. `reply` calls the callback the
program was given; `replyCaller` calls one that was captured from further outside.
-/

set_option autoImplicit false

namespace OlpEdgeSdk.Base

/-- A program whose requests are `Op`s with answers of type `Result`. -/
inductive Program (Op : Type) (Result : Op → Type) (Store Reply : Type) where
  /-- The callback is called; the end. -/
  | reply (r : Reply)
  /-- The callback of the caller is called instead; the end. -/
  | replyCaller (r : Reply)
  /-- The store is read. -/
  | read (next : Store → Program Op Result Store Reply)
  /-- The store is changed. -/
  | write (change : Store → Store) (next : Program Op Result Store Reply)
  /-- A request is started; `next` is its callback. -/
  | request (op : Op) (next : Result op → Program Op Result Store Reply)
  /-- The rest runs now, or later as a task of its own. -/
  | schedule (task : Program Op Result Store Reply)
  /-- The body runs if the operation is not cancelled, else `onCancel`. -/
  | executeOrCancelled (body onCancel : Program Op Result Store Reply)

namespace Program

variable {Op : Type} {Result : Op → Type} {Store Reply Rest : Type}

/-- A program run to its end, without a cancellation: `handle` answers the requests and may
change the store and the rest of the world. -/
def eval (handle : (op : Op) → Store × Rest → Result op × Store × Rest) :
    Program Op Result Store Reply → Store × Rest → Reply × Store × Rest
  | reply r, w => (r, w)
  | replyCaller r, w => (r, w)
  | read next, w => eval handle (next w.1) w
  | write change next, w => eval handle next (change w.1, w.2)
  | request op next, w => eval handle (next (handle op w).1) (handle op w).2
  | schedule task, w => eval handle task w
  | executeOrCancelled body _, w => eval handle body w

section Eval

variable (handle : (op : Op) → Store × Rest → Result op × Store × Rest) (w : Store × Rest)

@[simp] theorem eval_reply (r : Reply) :
    eval handle (reply r : Program Op Result Store Reply) w = (r, w) := rfl

@[simp] theorem eval_read (next : Store → Program Op Result Store Reply) :
    eval handle (read next) w = eval handle (next w.1) w := rfl

@[simp] theorem eval_write (change : Store → Store) (next : Program Op Result Store Reply) :
    eval handle (write change next) w = eval handle next (change w.1, w.2) := rfl

@[simp] theorem eval_request (op : Op) (next : Result op → Program Op Result Store Reply) :
    eval handle (request op next) w = eval handle (next (handle op w).1) (handle op w).2 := rfl

@[simp] theorem eval_schedule (task : Program Op Result Store Reply) :
    eval handle (schedule task) w = eval handle task w := rfl

@[simp] theorem eval_executeOrCancelled (body onCancel : Program Op Result Store Reply) :
    eval handle (executeOrCancelled body onCancel) w = eval handle body w := rfl

end Eval

/-! ## What a run depends on -/

/-- A property of programs that reading, writing and scheduling keep. -/
structure Structural (P : Program Op Result Store Reply → Prop) : Prop where
  read : ∀ next, (∀ s, P (next s)) → P (read next)
  write : ∀ change next, P next → P (write change next)
  schedule : ∀ task, P task → P (schedule task)

/-- Every request of the program is allowed. -/
def Uses (Allowed : Op → Prop) : Program Op Result Store Reply → Prop
  | reply _ => True
  | replyCaller _ => True
  | read next => ∀ s, Uses Allowed (next s)
  | write _ next => Uses Allowed next
  | request op next => Allowed op ∧ ∀ a, Uses Allowed (next a)
  | schedule task => Uses Allowed task
  | executeOrCancelled body _ => Uses Allowed body

theorem structural_uses (Allowed : Op → Prop) :
    Structural (Uses Allowed : Program Op Result Store Reply → Prop) :=
  ⟨fun _ h => h, fun _ _ h => h, fun _ h => h⟩

/-- **What the allowed requests keep true of the rest of the world, a program keeps true.** -/
theorem eval_keeps (Allowed : Op → Prop) (Kept : Rest → Prop)
    {handle : (op : Op) → Store × Rest → Result op × Store × Rest}
    (hhandle : ∀ op, Allowed op → ∀ w, Kept w.2 → Kept (handle op w).2.2)
    {program : Program Op Result Store Reply} (h : program.Uses Allowed) {w : Store × Rest}
    (hw : Kept w.2) : Kept (program.eval handle w).2.2 := by
  induction program generalizing w with
  | reply r => exact hw
  | replyCaller r => exact hw
  | read next ih => exact ih w.1 (h w.1) hw
  | write change next ih => exact ih h (w := (change w.1, w.2)) hw
  | request op next ih => exact ih _ (h.2 _) (hhandle op h.1 w hw)
  | schedule task ih => exact ih h hw
  | executeOrCancelled body onCancel ih _ => exact ih h hw

/-- **What the allowed requests leave alone, a program leaves alone.** -/
theorem eval_rest (Allowed : Op → Prop)
    {handle : (op : Op) → Store × Rest → Result op × Store × Rest}
    (hhandle : ∀ op, Allowed op → ∀ w, (handle op w).2.2 = w.2)
    {program : Program Op Result Store Reply} (h : program.Uses Allowed) (w : Store × Rest) :
    (program.eval handle w).2.2 = w.2 := by
  apply eval_keeps Allowed (fun rest => rest = w.2) _ h rfl
  intro op hop w' hw'
  rw [hhandle op hop w', hw']

/-- On related stores the program does the same: what it reads agrees, what it writes keeps
the stores related, and its requests are allowed. After an answer that is `Final` or a write
that does not keep the stores related, it only replies, with a reply that is `Last`. -/
def Insensitive (Related : Store → Store → Prop) (Allowed : Op → Prop)
    (Final : (op : Op) → Result op → Prop) (Last : Reply → Prop) :
    Program Op Result Store Reply → Prop
  | reply _ => True
  | replyCaller _ => True
  | read next => ∀ s s', Related s s' →
      next s = next s' ∧ Insensitive Related Allowed Final Last (next s)
  | write change next =>
      ((∀ s s', Related s s' → Related (change s) (change s')) ∧
        Insensitive Related Allowed Final Last next) ∨ ∃ r, next = reply r ∧ Last r
  | request op next => Allowed op ∧ ∀ a, Insensitive Related Allowed Final Last (next a) ∧
      (Final op a → ∃ r, next a = reply r ∧ Last r)
  | schedule task => Insensitive Related Allowed Final Last task
  | executeOrCancelled body _ => Insensitive Related Allowed Final Last body

theorem insensitive_executeOrCancelled {Related : Store → Store → Prop} {Allowed : Op → Prop}
    {Final : (op : Op) → Result op → Prop} {Last : Reply → Prop}
    {body onCancel : Program Op Result Store Reply} :
    (executeOrCancelled body onCancel).Insensitive Related Allowed Final Last ↔
      body.Insensitive Related Allowed Final Last :=
  Iff.rfl

/-- **An insensitive program replies the same on related stores**, and leaves them related
unless its reply is `Last`. -/
theorem eval_of_insensitive {Related : Store → Store → Prop} {Allowed : Op → Prop}
    {Final : (op : Op) → Result op → Prop} {Last : Reply → Prop}
    {handle : (op : Op) → Store × Rest → Result op × Store × Rest}
    (hhandle : ∀ op, Allowed op → ∀ w w', Related w.1 w'.1 →
      (handle op w).1 = (handle op w').1 ∧
        (Related (handle op w).2.1 (handle op w').2.1 ∨ Final op (handle op w).1))
    {program : Program Op Result Store Reply}
    (h : program.Insensitive Related Allowed Final Last) {w w' : Store × Rest}
    (hw : Related w.1 w'.1) :
    (program.eval handle w).1 = (program.eval handle w').1 ∧
      (Related (program.eval handle w).2.1 (program.eval handle w').2.1 ∨
        Last (program.eval handle w).1) := by
  induction program generalizing w w' with
  | reply r => exact ⟨rfl, Or.inl hw⟩
  | replyCaller r => exact ⟨rfl, Or.inl hw⟩
  | read next ih =>
    obtain ⟨hnext, hread⟩ := h w.1 w'.1 hw
    rw [eval_read, eval_read, ← hnext]
    exact ih w.1 hread hw
  | write change next ih =>
    rw [eval_write, eval_write]
    rcases h with ⟨hchange, hnext⟩ | ⟨r, rfl, hlast⟩
    · exact ih hnext (hchange w.1 w'.1 hw)
    · exact ⟨rfl, Or.inr hlast⟩
  | request op next ih =>
    obtain ⟨hanswer, hstores⟩ := hhandle op h.1 w w' hw
    rw [eval_request, eval_request, ← hanswer]
    rcases hstores with hstores | hfinal
    · exact ih _ (h.2 _).1 hstores
    · obtain ⟨r, hr, hlast⟩ := (h.2 _).2 hfinal
      rw [hr, eval_reply, eval_reply]
      exact ⟨rfl, Or.inr hlast⟩
  | schedule task ih => exact ih h hw
  | executeOrCancelled body onCancel ih _ => exact ih h hw

/-! ## Cancelled programs -/

/-- What a program does in a cancelled operation: `ExecuteOrCancelled` runs its cancel
function. -/
def cancelBranch : Program Op Result Store Reply → Program Op Result Store Reply
  | executeOrCancelled _ onCancel => cancelBranch onCancel
  | program => program

/-- The callback of the caller is only called by a cancel function. -/
def RepliesUnlessCancelled : Program Op Result Store Reply → Prop
  | reply _ => True
  | replyCaller _ => False
  | read next => ∀ s, RepliesUnlessCancelled (next s)
  | write _ next => RepliesUnlessCancelled next
  | request _ next => ∀ a, RepliesUnlessCancelled (next a)
  | schedule task => RepliesUnlessCancelled task
  | executeOrCancelled body onCancel => RepliesUnlessCancelled body ∧
      (RepliesUnlessCancelled onCancel ∨ ∃ r, onCancel = replyCaller r)

theorem structural_repliesUnlessCancelled :
    Structural (RepliesUnlessCancelled : Program Op Result Store Reply → Prop) :=
  ⟨fun _ h => h, fun _ _ h => h, fun _ h => h⟩

/-- The cancel function of a program calls the callback of the caller or replies like any
other program. -/
theorem cancelBranch_cases {program : Program Op Result Store Reply}
    (h : program.RepliesUnlessCancelled) :
    program.cancelBranch.RepliesUnlessCancelled ∨ ∃ r, program.cancelBranch = replyCaller r := by
  induction program with
  | executeOrCancelled body onCancel _ ih =>
    rcases h.2 with h | ⟨r, rfl⟩
    · exact ih h
    · exact Or.inr ⟨r, rfl⟩
  | replyCaller r => exact Or.inr ⟨r, rfl⟩
  | _ => exact Or.inl h

theorem cancelBranch_ne_executeOrCancelled (program : Program Op Result Store Reply)
    (body onCancel : Program Op Result Store Reply) :
    program.cancelBranch ≠ executeOrCancelled body onCancel := by
  induction program with
  | executeOrCancelled _ _ _ ih => exact ih
  | _ => exact nofun

end Program

end OlpEdgeSdk.Base

import Mathlib.Data.List.Nodup
import Mathlib.Data.List.Perm.Basic
import Mathlib.Logic.Function.Basic
import Mathlib.Order.Lattice
import OlpEdgeSdk.Base.Fifo

/-!
# First in, first out within a class

Items of several classes wait together, in the order in which they came. The one that is taken
out is of the highest class that is there, and of its class the one that came first. A system
that keeps one list for each class holds, under each class, those of its items (`InClasses`).
-/

set_option autoImplicit false

namespace OlpEdgeSdk.Base

variable {A P : Type}

inductive PriorityCall (A : Type) where
  | push (a : A)
  | pop
  | removeIf (f : A → Bool)
  | size

inductive PriorityAnswer (A : Type) where
  | pushed
  | popped (a : Option A)
  | removed (as : List A)
  | size (n : ℕ)

/-- What the answer to a call may be, and what is held after it. -/
inductive Serves [LinearOrder P] (prio : A → P) :
    List A → PriorityCall A → PriorityAnswer A → List A → Prop where
  | push (held : List A) (a : A) : Serves prio held (.push a) .pushed (held ++ [a])
  | popNone : Serves prio [] .pop (.popped none) []
  | pop {before after : List A} {a : A} (hbefore : ∀ b ∈ before, prio b < prio a)
      (hafter : ∀ b ∈ after, prio b ≤ prio a) :
      Serves prio (before ++ a :: after) .pop (.popped (some a)) (before ++ after)
  | removeIf {held removed : List A} {f : A → Bool} (h : removed.Perm (held.filter f)) :
      Serves prio held (.removeIf f) (.removed removed) (held.filter fun a => !f a)
  | size (held : List A) : Serves prio held .size (.size held.length) held

/-! ## What goes in comes out once -/

def PriorityCall.pushes : PriorityCall A → List A
  | .push a => [a]
  | _ => []

def PriorityAnswer.takes : PriorityAnswer A → List A
  | .popped a => a.toList
  | .removed as => as
  | _ => []

theorem Serves.balance [LinearOrder P] {prio : A → P} {held held' : List A}
    {call : PriorityCall A} {answer : PriorityAnswer A} (h : Serves prio held call answer held') :
    (held ++ call.pushes).Perm (answer.takes ++ held') := by
  cases h with
  | push a => exact List.Perm.refl _
  | popNone => exact List.Perm.refl _
  | @pop before after a hbefore hafter =>
    show (before ++ a :: after ++ []).Perm (a :: (before ++ after))
    rw [List.append_nil]
    exact List.perm_middle
  | @removeIf _ removed f hremoved =>
    show (held ++ []).Perm (removed ++ held.filter fun a => !f a)
    rw [List.append_nil]
    exact (List.filter_append_perm f held).symm.trans (hremoved.symm.append_right _)
  | size =>
    show (held ++ []).Perm ([] ++ held)
    rw [List.append_nil, List.nil_append]

/-- **Nothing is lost and nothing is served twice.** -/
theorem Allows.balance [LinearOrder P] {prio : A → P} {held held' : List A}
    {calls : List (PriorityCall A)} {answers : List (PriorityAnswer A)}
    (h : Allows (Serves prio) held calls answers held') :
    (held ++ calls.flatMap PriorityCall.pushes).Perm
      (answers.flatMap PriorityAnswer.takes ++ held') := by
  induction h with
  | nil held => simp
  | @cons held middle held' call answer calls answers hcall hcalls ih =>
    have hfirst := hcall.balance.append_right (calls.flatMap PriorityCall.pushes)
    rw [List.append_assoc, List.append_assoc] at hfirst
    rw [List.flatMap_cons, List.flatMap_cons, List.append_assoc]
    exact hfirst.trans (ih.append_left answer.takes)

/-! ## One list for each class -/

/-- Under each class, its items in the order in which they came. -/
def InClasses [DecidableEq P] (prio : A → P) (classes : P → List A) (held : List A) : Prop :=
  ∀ i, classes i = held.filter fun a => prio a = i

section Classes

variable [DecidableEq P] {prio : A → P} {classes : P → List A} {held : List A}

theorem inClasses_nil : InClasses prio (fun _ => []) [] := fun _ => rfl

theorem InClasses.push (h : InClasses prio classes held) (a : A) :
    InClasses prio (Function.update classes (prio a) (classes (prio a) ++ [a]))
      (held ++ [a]) := by
  intro i
  rw [List.filter_append]
  by_cases hi : i = prio a
  · subst hi
    rw [Function.update_self, h]
    simp
  · rw [Function.update_of_ne hi, h]
    simp [Ne.symm hi]

theorem InClasses.removeIf (h : InClasses prio classes held) (f : A → Bool) :
    InClasses prio (fun i => (classes i).filter f) (held.filter f) := by
  intro i
  simp only [h i, List.filter_filter]
  congr 1
  funext a
  exact Bool.and_comm _ _

/-- **Taking the first one of the highest class.** -/
theorem InClasses.pop {P : Type} [LinearOrder P] {prio : A → P} {classes : P → List A}
    {held : List A} (h : InClasses prio classes held) {i : P} {a : A} {rest : List A}
    (hi : classes i = a :: rest) (hhigher : ∀ j, i < j → classes j = []) :
    ∃ held', Serves prio held .pop (.popped (some a)) held' ∧
      InClasses prio (Function.update classes i rest) held' := by
  have hclass := h i
  rw [hi, eq_comm, List.filter_eq_cons_iff] at hclass
  obtain ⟨before, after, rfl, hbefore, ha, hrest⟩ := hclass
  have hprio : prio a = i := of_decide_eq_true ha
  -- an item of a higher class would be under it
  have hle : ∀ b ∈ before ++ a :: after, prio b ≤ i := by
    intro b hb
    by_contra hlt
    have hempty := (h (prio b)).symm.trans (hhigher (prio b) (not_le.mp hlt))
    exact absurd (decide_eq_true rfl) (List.filter_eq_nil_iff.mp hempty b hb)
  refine ⟨before ++ after, .pop (fun b hb => ?_) (fun b hb => ?_), fun j => ?_⟩
  · rw [hprio]
    refine lt_of_le_of_ne (hle b (List.mem_append_left _ hb)) fun heq => ?_
    exact hbefore b hb (decide_eq_true heq)
  · rw [hprio]
    exact hle b (List.mem_append_right _ (List.mem_cons_of_mem _ hb))
  · rw [List.filter_append]
    by_cases hj : j = i
    · subst hj
      rw [Function.update_self, List.filter_eq_nil_iff.mpr hbefore, hrest]
      rfl
    · rw [Function.update_of_ne hj, h j, List.filter_append, List.filter_cons_of_neg]
      simp [hprio, Ne.symm hj]

theorem InClasses.eq_nil (h : InClasses prio classes held) (hempty : ∀ i, classes i = []) :
    held = [] := by
  rw [List.eq_nil_iff_forall_not_mem]
  intro a ha
  have hnil := (h (prio a)).symm.trans (hempty (prio a))
  exact absurd (decide_eq_true rfl) (List.filter_eq_nil_iff.mp hnil a ha)

/-- Class by class, the items are those that are held. -/
theorem InClasses.flatMap_perm (h : InClasses prio classes held) {order : List P}
    (hnodup : order.Nodup) (hall : ∀ i, i ∈ order) : (order.flatMap classes).Perm held := by
  rw [show classes = fun i => held.filter fun a => prio a = i from funext h]
  clear h
  induction held with
  | nil => simp
  | cons a held ih =>
    obtain ⟨lower, upper, rfl⟩ := List.append_of_mem (hall (prio a))
    have hother : ∀ is : List P, prio a ∉ is →
        (is.flatMap fun i => (a :: held).filter fun b => prio b = i) =
          is.flatMap fun i => held.filter fun b => prio b = i := by
      intro is hnot
      refine List.flatMap_congr fun i hi => List.filter_cons_of_neg ?_
      rw [decide_eq_true_eq]
      rintro rfl
      exact hnot hi
    rw [List.nodup_middle, List.nodup_cons, List.mem_append, not_or] at hnodup
    rw [List.flatMap_append, List.flatMap_cons] at ih
    have hown : (a :: held).filter (fun b => prio b = prio a) =
        a :: held.filter fun b => prio b = prio a :=
      List.filter_cons_of_pos (decide_eq_true rfl)
    rw [List.flatMap_append, List.flatMap_cons, hother lower hnodup.1.1,
      hother upper hnodup.1.2, hown, List.cons_append]
    exact List.perm_middle.trans (ih.cons a)

end Classes

end OlpEdgeSdk.Base

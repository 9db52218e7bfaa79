import Mathlib.Algebra.BigOperators.Group.Finset.Piecewise
import Mathlib.Data.Fintype.Basic
import Mathlib.Algebra.Order.Group.Multiset

/-!
# Obligations held by a pool of slots

A slot of a pool owes the obligations it holds, each of them once. `owedBy` is what the slots
owe together; an update of one slot changes it by what that slot owes before and after. A
ledger is balanced if everything that was taken, once each, is either owed or discharged: then
nothing is discharged twice, and nothing is left when nothing is owed.
-/

set_option autoImplicit false

namespace OlpEdgeSdk.Base

variable {Slot Holding Duty : Type}

section Pool

variable [Fintype Slot]

/-- What the slots of a pool owe together. -/
def owedBy (owed : Holding → Multiset Duty) (pool : Slot → Holding) : Multiset Duty :=
  ∑ slot, owed (pool slot)

variable {owed : Holding → Multiset Duty} {pool pool' : Slot → Holding}

theorem mem_owedBy {d : Duty} : d ∈ owedBy owed pool ↔ ∃ slot, d ∈ owed (pool slot) := by
  unfold owedBy
  rw [Multiset.mem_sum]
  exact exists_congr fun slot => and_iff_right (Finset.mem_univ slot)

theorem owedBy_congr (h : ∀ slot, owed (pool' slot) = owed (pool slot)) :
    owedBy owed pool' = owedBy owed pool :=
  Finset.sum_congr rfl fun slot _ => h slot

theorem owedBy_eq_zero (h : ∀ slot, owed (pool slot) = 0) : owedBy owed pool = 0 :=
  Finset.sum_eq_zero fun slot _ => h slot

variable [DecidableEq Slot]

/-- What an update of one slot does. -/
theorem owedBy_update (owed : Holding → Multiset Duty) (pool : Slot → Holding) (slot : Slot)
    (holding : Holding) :
    owedBy owed (Function.update pool slot holding) + owed (pool slot) =
      owedBy owed pool + owed holding := by
  have hrest : ∑ other ∈ Finset.univ.erase slot, owed (Function.update pool slot holding other) =
      ∑ other ∈ Finset.univ.erase slot, owed (pool other) :=
    Finset.sum_congr rfl fun other hother => by
      rw [Function.update_of_ne (Finset.ne_of_mem_erase hother)]
  unfold owedBy
  rw [← Finset.add_sum_erase _ _ (Finset.mem_univ slot), hrest, Function.update_self,
    ← Finset.add_sum_erase _ (fun other => owed (pool other)) (Finset.mem_univ slot),
    add_right_comm, add_comm (owed holding), add_right_comm]

/-- A slot that owes nothing takes an obligation. -/
theorem owedBy_update_of_free {slot : Slot} {holding : Holding} (h : owed (pool slot) = 0) :
    owedBy owed (Function.update pool slot holding) = owedBy owed pool + owed holding := by
  have hupdate := owedBy_update owed pool slot holding
  rwa [h, add_zero] at hupdate

/-- A slot gives its obligations away. -/
theorem owedBy_update_of_release (pool : Slot → Holding) (slot : Slot) {holding : Holding}
    (h : owed holding = 0) :
    owedBy owed (Function.update pool slot holding) + owed (pool slot) = owedBy owed pool := by
  rw [owedBy_update, h, add_zero]

/-- If nothing is owed twice, an obligation is in one slot only. -/
theorem slot_unique_of_nodup (h : (owedBy owed pool).Nodup) {d : Duty} {slot other : Slot}
    (hslot : d ∈ owed (pool slot)) (hother : d ∈ owed (pool other)) : other = slot := by
  by_contra hne
  have hsplit : owedBy owed pool = owed (pool slot) +
      ∑ i ∈ Finset.univ.erase slot, owed (pool i) :=
    (Finset.add_sum_erase _ _ (Finset.mem_univ slot)).symm
  rw [hsplit, Multiset.nodup_add] at h
  refine Multiset.disjoint_left.mp h.2.2 hslot ?_
  rw [Multiset.mem_sum]
  exact ⟨other, Finset.mem_erase.mpr ⟨hne, Finset.mem_univ other⟩, hother⟩

end Pool

/-- Everything that was taken, once each, is owed or discharged. -/
structure Balanced (taken owed discharged : Multiset Duty) : Prop where
  nodup : taken.Nodup
  balance : taken = owed + discharged

namespace Balanced

variable {taken owed discharged : Multiset Duty} {d : Duty}

theorem take (h : Balanced taken owed discharged) (hnew : d ∉ taken) :
    Balanced (d ::ₘ taken) (owed + {d}) discharged := by
  refine ⟨Multiset.nodup_cons.mpr ⟨hnew, h.nodup⟩, ?_⟩
  rw [h.balance, ← Multiset.singleton_add, add_comm, add_right_comm]

theorem discharge (h : Balanced taken (owed + {d}) discharged) :
    Balanced taken owed (d ::ₘ discharged) := by
  refine ⟨h.nodup, ?_⟩
  rw [h.balance, ← Multiset.singleton_add, add_assoc]

theorem mem_iff (h : Balanced taken owed discharged) : d ∈ taken ↔ d ∈ owed ∨ d ∈ discharged := by
  rw [h.balance, Multiset.mem_add]

theorem owed_nodup (h : Balanced taken owed discharged) : owed.Nodup := by
  have hnodup := h.nodup
  rw [h.balance] at hnodup
  exact (Multiset.nodup_add.mp hnodup).1

theorem discharged_nodup (h : Balanced taken owed discharged) : discharged.Nodup := by
  have hnodup := h.nodup
  rw [h.balance] at hnodup
  exact (Multiset.nodup_add.mp hnodup).2.1

/-- What is owed has not been discharged. -/
theorem notMem_discharged (h : Balanced taken owed discharged) (howed : d ∈ owed) :
    d ∉ discharged := by
  have hnodup := h.nodup
  rw [h.balance] at hnodup
  exact Multiset.disjoint_left.mp (Multiset.nodup_add.mp hnodup).2.2 howed

end Balanced

end OlpEdgeSdk.Base

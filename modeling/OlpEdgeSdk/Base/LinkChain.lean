import Mathlib.Data.List.Nodup
import Mathlib.Data.List.Basic

/-!
# Doubly linked chains

A chain is a list of pairwise different nodes in which every node stores the node after
it and the node before it. The two stored links are given here as functions
`next prev : K → Option K`, whatever table they are read from, and `none` is the end of
the chain in either direction.

`Linked next prev ks` says that the links describe exactly the list `ks`. The two
updates a chain is built from are unlinking a node (`Linked.unlink`) and putting a node
in front (`Linked.cons_front`): each states which links may change and to what, so that
a table update is checked against it node by node. `follow` is the walk along `next`,
and `Linked.follow_eq` says that the walk from the head is the list itself.
-/

set_option autoImplicit false

namespace OlpEdgeSdk.Base

variable {K : Type}

/-- The links `next` and `prev` describe the list `ks`: at every position the next link
is the head of what follows, and the previous link is the last node of what precedes. -/
def Linked (next prev : K → Option K) (ks : List K) : Prop :=
  ∀ l₁ k l₂, ks = l₁ ++ k :: l₂ → next k = l₂.head? ∧ prev k = l₁.getLast?

/-- Walk along `next` for at most `n` nodes. -/
def follow (next : K → Option K) : ℕ → Option K → List K
  | 0, _ => []
  | _ + 1, none => []
  | n + 1, some k => k :: follow next n (next k)

namespace Linked

variable {next prev next' prev' : K → Option K}

theorem nil : Linked next prev [] := by
  intro l₁ k l₂ h
  simp at h

theorem congr {ks : List K} (h : Linked next prev ks) (hnext : ∀ j ∈ ks, next' j = next j)
    (hprev : ∀ j ∈ ks, prev' j = prev j) : Linked next' prev' ks := by
  intro l₁ k l₂ hsplit
  have hk : k ∈ ks := by
    rw [hsplit]
    simp
  rw [hnext k hk, hprev k hk]
  exact h l₁ k l₂ hsplit

theorem next_eq {l₁ l₂ : List K} {k : K} (h : Linked next prev (l₁ ++ k :: l₂)) :
    next k = l₂.head? :=
  (h l₁ k l₂ rfl).1

theorem prev_eq {l₁ l₂ : List K} {k : K} (h : Linked next prev (l₁ ++ k :: l₂)) :
    prev k = l₁.getLast? :=
  (h l₁ k l₂ rfl).2

/-- On a chain the two links are the inverse of each other. -/
theorem next_eq_some_iff {ks : List K} (h : Linked next prev ks) {k j : K} (hk : k ∈ ks)
    (hj : j ∈ ks) : next k = some j ↔ prev j = some k := by
  constructor
  · intro hnext
    obtain ⟨l₁, l₂, rfl⟩ := List.append_of_mem hk
    rw [h.next_eq] at hnext
    obtain ⟨l, rfl⟩ := List.head?_eq_some_iff.mp hnext
    have hprev := h (l₁ ++ [k]) j l (by simp)
    simpa using hprev.2
  · intro hprev
    obtain ⟨l₁, l₂, rfl⟩ := List.append_of_mem hj
    rw [h.prev_eq] at hprev
    obtain ⟨l, rfl⟩ := List.getLast?_eq_some_iff.mp hprev
    have hnext := h l k (j :: l₂) (by simp)
    simpa using hnext.1

/-- The tail of a chain walks as the chain does, which is all that `follow` needs. -/
theorem follow_eq_aux (l₁ l₂ : List K) (h : Linked next prev (l₁ ++ l₂)) (n : ℕ)
    (hn : l₂.length ≤ n) : follow next n l₂.head? = l₂ := by
  induction l₂ generalizing l₁ n with
  | nil => cases n <;> simp [follow]
  | cons k l₂ ih =>
    cases n with
    | zero => simp at hn
    | succ n =>
      have hk : next k = l₂.head? := h.next_eq
      have hrest := ih (l₁ ++ [k]) (by simpa using h) n (by simpa using hn)
      simp [follow, hk, hrest]

/-- The walk along `next` from the head of a chain visits exactly the chain. -/
theorem follow_eq {ks : List K} (h : Linked next prev ks) {n : ℕ} (hn : ks.length ≤ n) :
    follow next n ks.head? = ks :=
  follow_eq_aux [] ks (by simpa using h) n hn

/-- A node of a duplicate-free list that has a node after it is not the last one. -/
theorem getLast?_ne_of_nodup {l₁ l₂ : List K} {j b : K} (h : (l₁ ++ j :: b :: l₂).Nodup) :
    (l₁ ++ j :: b :: l₂).getLast? ≠ some j := by
  intro hlast
  have hsplit : l₁ ++ j :: b :: l₂ = (l₁ ++ [j]) ++ (b :: l₂) := by simp
  rw [hsplit, List.getLast?_append_of_ne_nil _ (by simp)] at hlast
  have hmem : j ∈ b :: l₂ := List.mem_of_getLast? hlast
  exact (List.nodup_cons.mp (List.nodup_append.mp h).2.1).1 hmem

/-- **Unlinking a node.** Only the next link of the node before and the previous link of
the node after change, and they now point at each other. -/
theorem unlink [DecidableEq K] {l₁ l₂ : List K} {k : K} (h : Linked next prev (l₁ ++ k :: l₂))
    (hnd : (l₁ ++ k :: l₂).Nodup)
    (hnext : ∀ j, j ≠ k → next' j = if l₁.getLast? = some j then l₂.head? else next j)
    (hprev : ∀ j, j ≠ k → prev' j = if l₂.head? = some j then l₁.getLast? else prev j) :
    Linked next' prev' (l₁ ++ l₂) := by
  intro m₁ j m₂ hsplit
  have hkj : j ≠ k := by
    rintro rfl
    have hmem : j ∈ l₁ ++ l₂ := by rw [hsplit]; simp
    have hnot := (List.nodup_middle.mp hnd)
    exact (List.nodup_cons.mp hnot).1 hmem
  rw [hnext j hkj, hprev j hkj]
  -- the split point `j` lies in `l₁` or in `l₂`; the node it neighbours may be `k`'s
  rcases List.append_eq_append_iff.mp hsplit with ⟨a, ha, hl₂⟩ | ⟨a, hl₁, ha⟩
  · subst ha
    have hold := h (l₁ ++ k :: a) j m₂ (by rw [hl₂]; simp)
    have hjl₁ : l₁.getLast? ≠ some j := by
      intro hlast
      have hj : j ∈ l₁ := List.mem_of_getLast? hlast
      rw [hl₂] at hnd
      have hdis := List.disjoint_of_nodup_append hnd
      exact hdis hj (by simp)
    rw [if_neg hjl₁]
    refine ⟨hold.1, ?_⟩
    cases a with
    | nil => simp [hl₂]
    | cons b a =>
      have hb : l₂.head? ≠ some j := by
        intro hhead
        rw [hl₂, List.cons_append, List.head?_cons, Option.some.injEq] at hhead
        subst hhead
        rw [hl₂] at hnd
        have hb := (List.nodup_append.mp hnd).2.1
        simp at hb
      rw [if_neg hb, hold.2]
      simp
  · subst hl₁
    cases a with
    | nil =>
      simp only [List.nil_append] at ha
      subst ha
      have hold := h (m₁ ++ [k]) j m₂ (by simp)
      have hjl₁ : (m₁ ++ []).getLast? ≠ some j := by
        intro hlast
        have hj : j ∈ m₁ := by simpa using List.mem_of_getLast? hlast
        have hdis := List.disjoint_of_nodup_append hnd
        exact hdis (by simpa using hj) (by simp)
      rw [if_neg hjl₁]
      exact ⟨hold.1, by simp⟩
    | cons b a =>
      simp only [List.cons_append, List.cons.injEq] at ha
      obtain ⟨rfl, rfl⟩ := ha
      have hold := h m₁ j (a ++ k :: l₂) (by simp)
      have hjl₂ : l₂.head? ≠ some j := by
        intro hhead
        have hj : j ∈ l₂ := List.mem_of_head? hhead
        have hdis := List.disjoint_of_nodup_append hnd
        exact hdis (by simp) (List.mem_cons_of_mem _ hj)
      rw [if_neg hjl₂]
      refine ⟨?_, hold.2⟩
      cases a with
      | nil => simp
      | cons c a =>
        have hne := getLast?_ne_of_nodup (List.nodup_append.mp hnd).1
        rw [if_neg hne, hold.1]
        simp

/-- **Putting a new node in front.** The old head now points back at it, and every other
link is kept. -/
theorem cons_front [DecidableEq K] {ks : List K} {k : K} (h : Linked next prev ks) (hk : k ∉ ks)
    (hnextk : next' k = ks.head?) (hprevk : prev' k = none)
    (hnext : ∀ j ∈ ks, next' j = next j)
    (hprev : ∀ j ∈ ks, prev' j = if ks.head? = some j then some k else prev j)
    (hnd : ks.Nodup) : Linked next' prev' (k :: ks) := by
  intro l₁ j l₂ hsplit
  cases l₁ with
  | nil =>
    simp only [List.nil_append, List.cons.injEq] at hsplit
    obtain ⟨rfl, rfl⟩ := hsplit
    exact ⟨hnextk, by simpa using hprevk⟩
  | cons a l₁ =>
    simp only [List.cons_append, List.cons.injEq] at hsplit
    obtain ⟨rfl, rfl⟩ := hsplit
    have hold := h l₁ j l₂ rfl
    have hj : j ∈ l₁ ++ j :: l₂ := by simp
    rw [hnext j hj, hprev j hj]
    refine ⟨hold.1, ?_⟩
    cases l₁ with
    | nil => simp
    | cons b l₁ =>
      have hbj : ¬ b = j := by
        rintro rfl
        simp at hnd
      rw [if_neg (by simpa using hbj), hold.2]
      simp

end Linked

end OlpEdgeSdk.Base

import Mathlib.Data.List.TakeWhile
import OlpEdgeSdk.Base.Separators

/-!
# Named values in one text

A list of parameters is written as `name=value` items with a separator between them. Where the
names hold neither sign and the values no separator, the text is read back by splitting it
(`parametersOf_joined`). The first value may hold anything if the text is only to determine the
parameters (`joined_cons_inj`): the separators are then counted from the end.
-/

set_option autoImplicit false

namespace OlpEdgeSdk.Base.Parameters

open OlpEdgeSdk.Base

variable {α : Type} {separator equals : α}

/-- A name and its value. -/
abbrev Parameter (α : Type) : Type := List α × List α

/-- A parameter as it is written. -/
def item (equals : α) (p : Parameter α) : List α := p.1 ++ equals :: p.2

/-- The parameters with a separator between any two. -/
def joined (separator equals : α) (params : List (Parameter α)) : List α :=
  [separator].intercalate (params.map (item equals))

theorem separator_notMem_item {p : Parameter α} (hne : separator ≠ equals)
    (hname : separator ∉ p.1) (hvalue : separator ∉ p.2) : separator ∉ item equals p := by
  unfold item
  rw [List.mem_append, List.mem_cons, not_or, not_or]
  exact ⟨hname, hne, hvalue⟩

theorem joined_cons {p : Parameter α} {params : List (Parameter α)} (hparams : params ≠ []) :
    joined separator equals (p :: params) =
      item equals p ++ separator :: joined separator equals params := by
  obtain ⟨q, rest, rfl⟩ := List.exists_cons_of_ne_nil hparams
  unfold joined
  rw [List.map_cons, List.map_cons, List.intercalate_cons_cons, List.append_assoc]
  rfl

theorem subset_intercalate {text item : List α} {items : List (List α)} (h : item ∈ items) :
    item ⊆ text.intercalate items := by
  induction items with
  | nil => exact absurd h List.not_mem_nil
  | cons first items ih =>
    cases items with
    | nil =>
      obtain rfl := List.mem_singleton.mp h
      rw [List.intercalate_singleton]
      exact List.Subset.refl item
    | cons second items =>
      rw [List.intercalate_cons_cons]
      rcases List.mem_cons.mp h with rfl | h
      · exact fun x hx => List.mem_append_left _ (List.mem_append_left _ hx)
      · exact fun x hx => List.mem_append_right _ (ih h hx)

variable [DecidableEq α]

/-- A name ends at the first sign. -/
def parameterOf (equals : α) (text : List α) : Parameter α :=
  (text.takeWhile (· ≠ equals), (text.dropWhile (· ≠ equals)).tail)

/-- The parameters of a text. -/
def parametersOf (separator equals : α) (text : List α) : List (Parameter α) :=
  (text.splitOn separator).map (parameterOf equals)

/-! ## Reading back -/

theorem parameterOf_item {p : Parameter α} (hname : equals ∉ p.1) :
    parameterOf equals (item equals p) = p := by
  have hother : ∀ x ∈ p.1, decide (x ≠ equals) = true := by
    intro x hx
    exact decide_eq_true fun heq => hname (heq ▸ hx)
  unfold parameterOf item
  rw [List.takeWhile_append_of_pos hother, List.dropWhile_append_of_pos hother]
  simp

/-- **Parameters are read back**, if there are any. -/
theorem parametersOf_joined {params : List (Parameter α)} (hne : separator ≠ equals)
    (hparams : params ≠ []) (hname : ∀ p ∈ params, separator ∉ p.1 ∧ equals ∉ p.1)
    (hvalue : ∀ p ∈ params, separator ∉ p.2) :
    parametersOf separator equals (joined separator equals params) = params := by
  unfold parametersOf joined
  rw [List.splitOn_intercalate, List.map_map]
  · calc params.map (parameterOf equals ∘ item equals)
        = params.map id := List.map_congr_left fun p hp => parameterOf_item (hname p hp).2
      _ = params := List.map_id params
  · intro text htext
    obtain ⟨p, hp, rfl⟩ := List.mem_map.mp htext
    exact separator_notMem_item hne (hname p hp).1 (hvalue p hp)
  · rwa [Ne, List.map_eq_nil_iff]

/-! ## What is read of any text -/

theorem notMem_of_mem_splitOn {separator : α} {text piece : List α}
    (h : piece ∈ text.splitOn separator) : separator ∉ piece := by
  induction text generalizing piece with
  | nil =>
    rw [List.splitOn_nil, List.mem_singleton] at h
    subst h
    exact List.not_mem_nil
  | cons x text ih =>
    rw [List.splitOn_cons_eq_if_modifyHead] at h
    split at h
    · rcases List.mem_cons.mp h with rfl | h
      · exact List.not_mem_nil
      · exact ih h
    · rename_i hx
      obtain ⟨first, rest, hsplit⟩ := List.exists_cons_of_ne_nil (List.splitOn_ne_nil separator text)
      rw [hsplit, List.modifyHead_cons] at h
      rcases List.mem_cons.mp h with rfl | h
      · rw [List.mem_cons, not_or]
        exact ⟨fun heq => hx (beq_iff_eq.mpr heq.symm), ih (hsplit ▸ List.mem_cons_self)⟩
      · exact ih (hsplit ▸ List.mem_cons_of_mem first h)

theorem subset_of_mem_splitOn {separator : α} {text piece : List α}
    (h : piece ∈ text.splitOn separator) : piece ⊆ text := by
  intro x hx
  have hmem : x ∈ [separator].intercalate (text.splitOn separator) := subset_intercalate h hx
  rwa [List.intercalate_splitOn] at hmem

/-- **The names and values that are read** hold no separator, and the names no sign. -/
theorem free_of_mem_parametersOf {text : List α} {p : Parameter α}
    (h : p ∈ parametersOf separator equals text) :
    separator ∉ p.1 ∧ equals ∉ p.1 ∧ separator ∉ p.2 := by
  obtain ⟨piece, hpiece, rfl⟩ := List.mem_map.mp h
  have hfree := notMem_of_mem_splitOn hpiece
  refine ⟨fun hmem => hfree ((List.takeWhile_subset _) hmem), fun hmem => ?_, fun hmem => ?_⟩
  · simpa using List.mem_takeWhile_imp hmem
  · exact hfree ((List.dropWhile_suffix _).subset (List.mem_of_mem_tail hmem))

theorem subset_of_mem_parametersOf {text : List α} {p : Parameter α}
    (h : p ∈ parametersOf separator equals text) : p.1 ⊆ text ∧ p.2 ⊆ text := by
  obtain ⟨piece, hpiece, rfl⟩ := List.mem_map.mp h
  have hsub := subset_of_mem_splitOn hpiece
  exact ⟨fun x hx => hsub (List.takeWhile_subset _ hx),
    fun x hx => hsub ((List.dropWhile_suffix _).subset (List.mem_of_mem_tail hx))⟩

/-! ## A first value that may hold separators -/

/-- **The text determines the parameters**, whatever the first value holds, if their number is
known. -/
theorem joined_cons_inj {p p' : Parameter α} {params params' : List (Parameter α)}
    (h : joined separator equals (p :: params) = joined separator equals (p' :: params'))
    (hne : separator ≠ equals) (hparams : params ≠ []) (hlength : params.length = params'.length)
    (hname : ∀ q ∈ params ++ params', separator ∉ q.1 ∧ equals ∉ q.1)
    (hvalue : ∀ q ∈ params ++ params', separator ∉ q.2) :
    item equals p = item equals p' ∧ params = params' := by
  have hparams' : params' ≠ [] := by
    rintro rfl
    exact hparams (List.length_eq_zero_iff.mp hlength)
  have hread : parametersOf separator equals (joined separator equals params) = params :=
    parametersOf_joined hne hparams (fun q hq => hname q (List.mem_append_left _ hq))
      fun q hq => hvalue q (List.mem_append_left _ hq)
  have hread' : parametersOf separator equals (joined separator equals params') = params' :=
    parametersOf_joined hne hparams' (fun q hq => hname q (List.mem_append_right _ hq))
      fun q hq => hvalue q (List.mem_append_right _ hq)
  -- the pieces behind the first parameter are as many as the parameters
  have hpieces : ∀ {qs : List (Parameter α)},
      parametersOf separator equals (joined separator equals qs) = qs →
      ((joined separator equals qs).splitOn separator).length = qs.length := by
    intro qs hqs
    conv_rhs => rw [← hqs]
    exact (List.length_map _).symm
  have hsplit := congrArg (List.splitOn separator) h
  rw [joined_cons hparams, joined_cons hparams', List.splitOn_append_cons_self,
    List.splitOn_append_cons_self] at hsplit
  obtain ⟨hfirst, hrest⟩ := List.append_inj' hsplit
    (by rw [hpieces hread, hpieces hread', hlength])
  constructor
  · calc item equals p
        = [separator].intercalate ((item equals p).splitOn separator) :=
          (List.intercalate_splitOn separator).symm
      _ = [separator].intercalate ((item equals p').splitOn separator) := by rw [hfirst]
      _ = item equals p' := List.intercalate_splitOn separator
  · rw [← hread, ← hread', parametersOf, hrest, parametersOf]

end OlpEdgeSdk.Base.Parameters

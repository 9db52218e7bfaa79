import OlpEdgeSdk.Base.Parameters

/-!
# Paths and queries

The target of a request names a resource: the segments of a path, each behind a slash, and the
parameters of a query behind a question mark. What is behind a number sign is not part of it.
The texts are taken as they stand. A target is read back to the resource it was written for if
and only if none of its texts holds a sign that ends it (`ofTarget_target_iff`).
-/

set_option autoImplicit false

namespace OlpEdgeSdk.Base

open OlpEdgeSdk.Base.Parameters

structure Resource where
  segments : List (List Char)
  params : List (Parameter Char)
deriving DecidableEq

namespace Resource

/-- The segments, each behind a slash. -/
def path (segments : List (List Char)) : List Char := segments.flatMap ('/' :: ·)

/-- The parameters behind a question mark, if there are any. -/
def query (params : List (Parameter Char)) : List Char :=
  if params = [] then [] else '?' :: joined '&' '=' params

/-- The text of a resource. -/
def target (r : Resource) : List Char := path r.segments ++ query r.params

/-- The resource of a text. -/
def ofTarget (text : List Char) : Resource :=
  let text := text.takeWhile (· ≠ '#')
  { segments := ((text.takeWhile (· ≠ '?')).splitOn '/').tail
    params :=
      match text.dropWhile (· ≠ '?') with
      | [] => []
      | _ :: query => parametersOf '&' '=' query }

/-- No text of a resource holds a sign that ends it. -/
structure Safe (r : Resource) : Prop where
  segment : ∀ s ∈ r.segments, '/' ∉ s ∧ '?' ∉ s ∧ '#' ∉ s
  name : ∀ p ∈ r.params, '&' ∉ p.1 ∧ '=' ∉ p.1 ∧ '#' ∉ p.1
  value : ∀ p ∈ r.params, '&' ∉ p.2 ∧ '#' ∉ p.2

variable {r : Resource}

theorem path_eq_intercalate (segments : List (List Char)) :
    path segments = ['/'].intercalate ([] :: segments) := by
  induction segments with
  | nil => rfl
  | cons s segments ih =>
    rw [List.intercalate_cons_cons, List.nil_append]
    cases segments with
    | nil => simp [path]
    | cons t segments =>
      have htail : path (s :: t :: segments) = '/' :: s ++ path (t :: segments) := rfl
      rw [htail, ih, List.intercalate_cons_cons, List.intercalate_cons_cons]
      simp

/-! ## What is read is safe -/

theorem notMem_of_mem_takeWhile {c : Char} {text : List Char} : c ∉ text.takeWhile (· ≠ c) := by
  intro hmem
  simpa using List.mem_takeWhile_imp hmem

theorem subset_dropWhile_cons {c d : Char} {text rest : List Char}
    (h : text.dropWhile (· ≠ c) = d :: rest) : rest ⊆ text := by
  intro x hx
  apply (List.dropWhile_suffix (· ≠ c)).subset
  rw [h]
  exact List.mem_cons_of_mem d hx

theorem safe_ofTarget (text : List Char) : (ofTarget text).Safe := by
  have hnumber : '#' ∉ text.takeWhile (· ≠ '#') := notMem_of_mem_takeWhile
  unfold ofTarget
  dsimp only
  generalize text.takeWhile (· ≠ '#') = text at hnumber
  have hparams : ∀ p ∈ (match text.dropWhile (· ≠ '?') with
      | [] => []
      | _ :: query => parametersOf '&' '=' query),
      ('&' ∉ p.1 ∧ '=' ∉ p.1 ∧ '#' ∉ p.1) ∧ ('&' ∉ p.2 ∧ '#' ∉ p.2) := by
    intro p hp
    cases hquery : text.dropWhile (· ≠ '?') with
    | nil =>
      rw [hquery] at hp
      exact absurd hp List.not_mem_nil
    | cons c query =>
      rw [hquery] at hp
      obtain ⟨hname, hequals, hvalue⟩ := free_of_mem_parametersOf hp
      obtain ⟨hfst, hsnd⟩ := subset_of_mem_parametersOf hp
      have hquery := subset_dropWhile_cons hquery
      exact ⟨⟨hname, hequals, fun h => hnumber (hquery (hfst h))⟩, hvalue,
        fun h => hnumber (hquery (hsnd h))⟩
  refine ⟨?_, fun p hp => (hparams p hp).1, fun p hp => (hparams p hp).2⟩
  intro s hs
  have hmem := List.mem_of_mem_tail hs
  have hsub := subset_of_mem_splitOn hmem
  exact ⟨notMem_of_mem_splitOn hmem, fun h => notMem_of_mem_takeWhile (hsub h),
    fun h => hnumber (List.takeWhile_subset _ (hsub h))⟩

/-! ## Reading back -/

theorem notMem_path {c : Char} (hc : c ≠ '/') {segments : List (List Char)}
    (h : ∀ s ∈ segments, c ∉ s) : c ∉ path segments := by
  intro hmem
  obtain ⟨s, hs, hmem⟩ := List.mem_flatMap.mp hmem
  rcases List.mem_cons.mp hmem with hmem | hmem
  · exact hc hmem
  · exact h s hs hmem

theorem notMem_query {c : Char} (hc : c ∉ ['?', '&', '=']) {params : List (Parameter Char)}
    (hname : ∀ p ∈ params, c ∉ p.1) (hvalue : ∀ p ∈ params, c ∉ p.2) : c ∉ query params := by
  simp only [List.mem_cons, List.not_mem_nil, or_false, not_or] at hc
  unfold query
  split
  · exact List.not_mem_nil
  · rw [List.mem_cons, not_or]
    refine ⟨hc.1, fun hmem => ?_⟩
    rcases mem_of_mem_intercalate hmem with hmem | ⟨text, htext, hmem⟩
    · exact hc.2.1 (List.mem_singleton.mp hmem)
    · obtain ⟨p, hp, rfl⟩ := List.mem_map.mp htext
      rcases List.mem_append.mp hmem with hmem | hmem
      · exact hname p hp hmem
      · rcases List.mem_cons.mp hmem with hmem | hmem
        · exact hc.2.2 hmem
        · exact hvalue p hp hmem

theorem ofTarget_target (h : r.Safe) : ofTarget r.target = r := by
  have hnumber : '#' ∉ r.target := by
    unfold target
    rw [List.mem_append, not_or]
    exact ⟨notMem_path (by decide) fun s hs => (h.segment s hs).2.2,
      notMem_query (by decide) (fun p hp => (h.name p hp).2.2) fun p hp => (h.value p hp).2⟩
  have hother : ∀ x ∈ r.target, decide (x ≠ '#') = true :=
    fun x hx => decide_eq_true fun heq => hnumber (heq ▸ hx)
  have hpath : ∀ x ∈ path r.segments, decide (x ≠ '?') = true := by
    intro x hx
    apply decide_eq_true
    rintro rfl
    exact notMem_path (by decide) (fun s hs => (h.segment s hs).2.1) hx
  have htake : (query r.params).takeWhile (· ≠ '?') = [] := by
    unfold query
    split
    · rfl
    · simp
  have hsegments : (path r.segments).splitOn '/' = [] :: r.segments := by
    rw [path_eq_intercalate]
    refine List.splitOn_intercalate '/' ?_ (List.cons_ne_nil _ _)
    intro s hs
    rcases List.mem_cons.mp hs with rfl | hs
    · exact List.not_mem_nil
    · exact (h.segment s hs).1
  unfold ofTarget
  dsimp only
  rw [List.takeWhile_eq_self_iff.mpr hother, target, List.takeWhile_append_of_pos hpath,
    List.dropWhile_append_of_pos hpath, htake, List.append_nil, hsegments]
  unfold query
  by_cases hparams : r.params = []
  · rw [if_pos hparams]
    exact congrArg (Resource.mk r.segments) hparams.symm
  · rw [if_neg hparams]
    refine congrArg (Resource.mk r.segments) ?_
    rw [List.dropWhile_cons_of_neg (by simp)]
    exact parametersOf_joined (by decide) hparams
      (fun p hp => ⟨(h.name p hp).1, (h.name p hp).2.1⟩) fun p hp => (h.value p hp).1

/-- **A target is read back** if and only if its resource is safe. -/
theorem ofTarget_target_iff : ofTarget r.target = r ↔ r.Safe :=
  ⟨fun h => h ▸ safe_ofTarget r.target, ofTarget_target⟩

end Resource

end OlpEdgeSdk.Base

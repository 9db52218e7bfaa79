import OlpEdgeSdk.Analysis.CatalogIsolation

/-!
# Printing and reading a resource name

`toString` writes the fields that the service of a name uses, with a colon between them, and
`parse` reads them back. The fields in front of the last one hold no colon, since the tokenizer
ends them there; the last one is what is left, so it may hold colons and may be missing. A
name that was read with one of the three services is `Printable`, and for these the two are
inverse to each other (`parse_toString`): an absent and an empty field are read as the same.
-/

set_option autoImplicit false

namespace OlpEdgeSdk.Analysis.ResourceNames

open OlpEdgeSdk.Base OlpEdgeSdk.Model OlpEdgeSdk.Analysis.CatalogIsolation

/-! ## Tokens -/

theorem free_isColon_iff {l : List Char} : Free isColon l ↔ ':' ∉ l := by
  constructor
  · intro h hmem
    exact absurd (h ':' hmem) (by decide)
  · intro h c hc
    unfold isColon
    rw [decide_eq_false_iff_not]
    rintro rfl
    exact h hc

/-- A token ends at the first separator. -/
theorem next_append {token : List Char} (h : Free isColon token) (rest : List Char) :
    Tokenizer.next ':' (some (token ++ ':' :: rest)) = (token, some rest) := by
  have hpos : ∀ x ∈ token, decide (x ≠ ':') = true := by
    intro x hx
    simpa [isColon] using h x hx
  unfold Tokenizer.next
  simp only
  rw [List.takeWhile_append_of_pos hpos, List.dropWhile_append_of_pos hpos]
  simp

/-- The last token is all that is left. -/
theorem next_last {token : List Char} (h : Free isColon token) :
    Tokenizer.next ':' (some token) = (token, none) := by
  have hpos : ∀ x ∈ token, decide (x ≠ ':') = true := by
    intro x hx
    simpa [isColon] using h x hx
  unfold Tokenizer.next
  simp only
  rw [List.takeWhile_eq_self_iff.mpr hpos, List.dropWhile_eq_nil_iff.mpr hpos]

/-! ## Names that were read -/

/-- The fields that the service of a name uses can be told apart, and the others are empty. -/
def Printable (h : HRN) : Prop :=
  Free isColon h.partition ∧ Free isColon h.region ∧ Free isColon h.account ∧
    match h.service with
    | .data => Free isColon h.catalogId ∧
        h = { HRN.empty with
          partition := h.partition, service := .data, region := h.region, account := h.account,
          catalogId := h.catalogId, layerId := h.layerId }
    | .schema => Free isColon h.groupId ∧ Free isColon h.schemaName ∧
        h = { HRN.empty with
          partition := h.partition, service := .schema, region := h.region,
          account := h.account, groupId := h.groupId, schemaName := h.schemaName,
          version := h.version }
    | .pipeline =>
        h = { HRN.empty with
          partition := h.partition, service := .pipeline, region := h.region,
          account := h.account, pipelineId := h.pipelineId }
    | .unknown => False

theorem printable_parse {input : List Char} (h : (HRN.parse input).service ≠ .unknown) :
    Printable (HRN.parse input) := by
  obtain ⟨partition, region, account, service, tokens, hparse, hpartition, hregion, haccount⟩ :=
    exists_readRest h
  rw [hparse] at h ⊢
  cases service with
  | data => exact ⟨hpartition, hregion, haccount, free_next _, rfl⟩
  | schema => exact ⟨hpartition, hregion, haccount, free_next _, free_next _, rfl⟩
  | pipeline => exact ⟨hpartition, hregion, haccount, rfl⟩
  | unknown => exact absurd rfl h

/-- The protocol and the field behind it are read one by one. -/
theorem parse_hrn {partition : List Char} (hpartition : Free isColon partition)
    (rest : List Char) :
    HRN.parse ("hrn".toList ++ ':' :: (partition ++ ':' :: rest)) =
      let (service, tokens) := Tokenizer.next ':' (some rest)
      let (region, tokens) := tokens.next ':'
      let (account, tokens) := tokens.next ':'
      HRN.readRest { HRN.empty with
        partition := partition, service := HRN.readService service, region := region,
        account := account } tokens := by
  have hhrn : Free isColon "hrn".toList := free_isColon_iff.mpr (by decide)
  have hnew : ∀ text, Tokenizer.new ("hrn".toList ++ text) = some ("hrn".toList ++ text) :=
    fun _ => rfl
  have hprotocol : ¬ ("hrn".toList = "http".toList ∨ "hrn".toList = "https".toList) := by decide
  unfold HRN.parse
  simp only [hnew, next_append hhrn, next_append hpartition]
  rw [if_neg hprotocol, if_pos trivial]

/-- So are the fields up to the account. -/
theorem parse_fields {partition service region account : List Char}
    (hpartition : Free isColon partition) (hservice : ':' ∉ service)
    (hregion : Free isColon region) (haccount : Free isColon account) (rest : List Char) :
    HRN.parse ("hrn".toList ++ ':' :: (partition ++ ':' :: (service ++ ':' ::
        (region ++ ':' :: (account ++ ':' :: rest))))) =
      HRN.readRest { HRN.empty with
        partition := partition, service := HRN.readService service, region := region,
        account := account } (some rest) := by
  rw [parse_hrn hpartition]
  simp only [next_append (free_isColon_iff.mpr hservice), next_append hregion,
    next_append haccount]

/-- **Reading what was printed.** -/
theorem parse_toString {h : HRN} (hprintable : Printable h) : HRN.parse h.toString = h := by
  obtain ⟨hpartition, hregion, haccount, hrest⟩ := hprintable
  cases hservice : h.service with
  | unknown =>
    rw [hservice] at hrest
    exact hrest.elim
  | data =>
    rw [hservice] at hrest
    obtain ⟨hcatalog, hfields⟩ := hrest
    have htext : h.toString = "hrn".toList ++ ':' :: (h.partition ++ ':' :: ("data".toList ++
        ':' :: (h.region ++ ':' :: (h.account ++ ':' ::
          (h.catalogId ++ if h.layerId ≠ [] then ':' :: h.layerId else []))))) := by
      simp only [HRN.toString, hservice]
      split <;> simp
    rw [htext, parse_fields hpartition (by decide) hregion haccount]
    by_cases hlayer : h.layerId = []
    · rw [hlayer] at hfields ⊢
      rw [hfields]
      simp [HRN.readRest, HRN.readService, next_last hcatalog, Tokenizer.tail]
    · rw [if_pos hlayer]
      conv_rhs => rw [hfields]
      simp [HRN.readRest, HRN.readService, next_append hcatalog, Tokenizer.tail]
  | schema =>
    rw [hservice] at hrest
    obtain ⟨hgroup, hschema, hfields⟩ := hrest
    have htext : h.toString = "hrn".toList ++ ':' :: (h.partition ++ ':' :: ("schema".toList ++
        ':' :: (h.region ++ ':' :: (h.account ++ ':' ::
          (h.groupId ++ ':' :: (h.schemaName ++ ':' :: h.version)))))) := by
      simp [HRN.toString, hservice]
    rw [htext, parse_fields hpartition (by decide) hregion haccount]
    conv_rhs => rw [hfields]
    simp [HRN.readRest, HRN.readService, next_append hgroup, next_append hschema, Tokenizer.tail]
  | pipeline =>
    rw [hservice] at hrest
    have htext : h.toString = "hrn".toList ++ ':' :: (h.partition ++ ':' ::
        ("pipeline".toList ++ ':' :: (h.region ++ ':' :: (h.account ++ ':' ::
          h.pipelineId)))) := by
      simp [HRN.toString, hservice]
    rw [htext, parse_fields hpartition (by decide) hregion haccount]
    conv_rhs => rw [hrest]
    simp [HRN.readRest, HRN.readService, Tokenizer.tail]

/-- Two names that are compared by the same fields are printed alike. -/
theorem toString_eq_of_operatorEq {h h' : HRN} (heq : h.operatorEq h' = true) :
    h.toString = h'.toString := by
  unfold HRN.operatorEq at heq
  dsimp only at heq
  split at heq
  · rename_i hfields
    obtain ⟨hpartition, hservice, hregion, haccount⟩ := hfields
    unfold HRN.toString
    cases hs : h.service with
    | unknown => simp [← hservice, hs, hpartition, hregion, haccount]
    | data =>
      simp only [hs, decide_eq_true_eq] at heq
      simp [← hservice, hs, hpartition, hregion, haccount, heq]
    | schema =>
      simp only [hs, decide_eq_true_eq] at heq
      simp [← hservice, hs, hpartition, hregion, haccount, heq]
    | pipeline =>
      simp only [hs, decide_eq_true_eq] at heq
      simp [← hservice, hs, hpartition, hregion, haccount, heq]
  · cases heq

theorem operatorEq_self (h : HRN) : h.operatorEq h = true := by
  unfold HRN.operatorEq
  dsimp only
  rw [if_pos ⟨rfl, rfl, rfl, rfl⟩]
  split <;> simp

/-! ## The texts of names -/

/-- The texts `hrn:<partition>:<service>:...`, where all behind the service may be missing. -/
def Named (text : List Char) : Prop :=
  ∃ partition service rest : List Char,
    ':' ∉ partition ∧ service ∈ ["data".toList, "schema".toList, "pipeline".toList] ∧
      (rest = [] ∨ ∃ fields, rest = ':' :: fields) ∧
      text = "hrn:".toList ++ partition ++ ":".toList ++ service ++ rest

theorem service_readRest (h : HRN) (tokens : Tokenizer) :
    (h.readRest tokens).service = h.service := by
  unfold HRN.readRest
  split
  · rfl
  · rfl
  · rfl
  · rfl

theorem service_parse {text : List Char} (h : Named text) :
    (HRN.parse text).service ≠ .unknown := by
  obtain ⟨partition, service, rest, hpartition, hservice, hrest, rfl⟩ := h
  have hknown : HRN.readService service ≠ .unknown ∧ ':' ∉ service := by
    simp only [List.mem_cons, List.not_mem_nil, or_false] at hservice
    rcases hservice with rfl | rfl | rfl
    · exact ⟨by decide, by decide⟩
    · exact ⟨by decide, by decide⟩
    · exact ⟨by decide, by decide⟩
  have htoken : (Tokenizer.next ':' (some (service ++ rest))).1 = service := by
    rcases hrest with rfl | ⟨fields, rfl⟩
    · rw [List.append_nil, next_last (free_isColon_iff.mpr hknown.2)]
    · rw [next_append (free_isColon_iff.mpr hknown.2)]
  have htext : "hrn:".toList ++ partition ++ ":".toList ++ service ++ rest =
      "hrn".toList ++ ':' :: (partition ++ ':' :: (service ++ rest)) := by simp
  rw [htext, parse_hrn (free_isColon_iff.mpr hpartition)]
  dsimp only
  rw [service_readRest, htoken]
  exact hknown.1

/-- **Printing and reading agree.** A name that was read is the same after it was printed and
read again, and so is what is printed; and two such names are equal iff they are printed alike.
SOURCE: HRN.cpp:29-51, 60-137, Tokenizer.h:28-56 -/
theorem print_parse_agree (s₁ s₂ : List Char) (h₁ : Named s₁) (h₂ : Named s₂) :
    HRN.parse (HRN.parse s₁).toString = HRN.parse s₁ ∧
      (HRN.parse (HRN.parse s₁).toString).toString = (HRN.parse s₁).toString ∧
      ((HRN.parse s₁).operatorEq (HRN.parse s₂) = true ↔
        (HRN.parse s₁).toString = (HRN.parse s₂).toString) := by
  have hread₁ := parse_toString (printable_parse (service_parse h₁))
  have hread₂ := parse_toString (printable_parse (service_parse h₂))
  refine ⟨hread₁, congrArg HRN.toString hread₁, ?_⟩
  constructor
  · exact toString_eq_of_operatorEq
  · intro htext
    have heq : HRN.parse s₁ = HRN.parse s₂ := by rw [← hread₁, htext, hread₂]
    rw [heq]
    exact operatorEq_self _

/-- The layer may be missing and may hold colons. -/
theorem print_parse_agree_layers :
    HRN.parse (HRN.parse "hrn:here:data::a:cat".toList).toString =
        HRN.parse "hrn:here:data::a:cat".toList ∧
      ((HRN.parse "hrn:here:data::a:cat".toList).operatorEq
          (HRN.parse "hrn:here:data::a:cat:x:y".toList) = true ↔
        (HRN.parse "hrn:here:data::a:cat".toList).toString =
          (HRN.parse "hrn:here:data::a:cat:x:y".toList).toString) := by
  have hagree := print_parse_agree "hrn:here:data::a:cat".toList "hrn:here:data::a:cat:x:y".toList
    ⟨"here".toList, "data".toList, "::a:cat".toList, by decide, by decide,
      Or.inr ⟨":a:cat".toList, rfl⟩, rfl⟩
    ⟨"here".toList, "data".toList, "::a:cat:x:y".toList, by decide, by decide,
      Or.inr ⟨":a:cat:x:y".toList, rfl⟩, rfl⟩
  exact ⟨hagree.1, hagree.2.2⟩

end OlpEdgeSdk.Analysis.ResourceNames

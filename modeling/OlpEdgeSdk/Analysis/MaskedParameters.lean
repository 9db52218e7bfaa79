import Mathlib.Data.List.Forall2
import Mathlib.Data.List.TakeWhile
import OlpEdgeSdk.Base.Separators
import OlpEdgeSdk.Model.Credentials

/-!
# What is masked in a query

A URL has a query behind its first question mark, the parameters of which are separated by
ampersands. The code looks for a name as a text, once: it masks what is behind the first
occurrence, up to the next ampersand. In terms of the parameters, the first one that contains
the name is masked behind it (`censor_query`). The others stay in their places as they are, and
no name is written (`Stars.infix_of`).
-/

set_option autoImplicit false

namespace OlpEdgeSdk.Analysis.MaskedParameters

open OlpEdgeSdk.Base OlpEdgeSdk.Model.Credentials

/-! ## What the code does to a query -/

/-- The first parameter that contains a name is masked behind it. -/
def maskFirst (name : List Char) : List (List Char) → List (List Char)
  | [] => []
  | s :: rest =>
    match cutAt name s with
    | some (before, after) => (before ++ name ++ List.replicate after.length '*') :: rest
    | none => s :: maskFirst name rest

/-- A text is masked behind a name, up to the next ampersand. -/
def maskText (name text : List Char) : List Char :=
  match cutAt name text with
  | none => text
  | some (before, after) =>
    before ++ name ++ List.replicate (after.takeWhile (· ≠ '&')).length '*' ++
      after.dropWhile (· ≠ '&')

/-- A name holds neither of the separators. -/
structure IsName (name : List Char) : Prop where
  question : '?' ∉ name
  ampersand : '&' ∉ name
  star : '*' ∉ name
  nonempty : name ≠ []

theorem isName_appId : IsName appIdName := ⟨by decide, by decide, by decide, by decide⟩

theorem isName_appCode : IsName appCodeName := ⟨by decide, by decide, by decide, by decide⟩

theorem censorCredentialsPart_append (front text name : List Char) :
    censorCredentialsPart (front ++ text) front.length name = front ++ maskText name text := by
  have hfind : find (front ++ text) name front.length =
      (cutAt name text).map fun cut => front.length + cut.1.length := by
    rw [find, if_pos (by rw [List.length_append]; omega), List.drop_left]
  unfold censorCredentialsPart maskText
  rw [hfind]
  cases hcut : cutAt name text with
  | none => rfl
  | some cut =>
    obtain ⟨before, after⟩ := cut
    obtain rfl := eq_of_cutAt hcut
    obtain ⟨head, hhead⟩ : ∃ head, head = front ++ before ++ name := ⟨_, rfl⟩
    have hurl : front ++ (before ++ name ++ after) = head ++ after := by simp [hhead]
    have hstart : front.length + before.length + name.length = head.length := by
      simp [hhead, Nat.add_assoc]
    have hsplit := List.takeWhile_append_dropWhile (p := fun c => decide (c ≠ '&')) (l := after)
    have hend : (find (head ++ after) ['&'] head.length).getD (head ++ after).length =
        head.length + (after.takeWhile (· ≠ '&')).length := by
      rw [find, if_pos (by rw [List.length_append]; omega), List.drop_left, cutAt_singleton]
      split
      · rename_i hdrop
        rw [hdrop, List.append_nil] at hsplit
        rw [List.length_append, hsplit]
        rfl
      · rfl
    have hdrop : after.drop (after.takeWhile (· ≠ '&')).length = after.dropWhile (· ≠ '&') := by
      conv_lhs => rw [← hsplit, List.drop_append]
      simp
    simp only [Option.map_some, hurl, hstart, hend, fill]
    rw [List.take_left, Nat.add_sub_cancel_left, List.drop_length_add_append, hdrop, hhead]
    simp

theorem maskText_question {name : List Char} (hname : IsName name) (text : List Char) :
    maskText name ('?' :: text) = '?' :: maskText name text := by
  have hpre : ¬ name <+: '?' :: text := by
    intro hpre
    cases name with
    | nil => exact hname.nonempty rfl
    | cons c name =>
      obtain ⟨rfl, -⟩ := List.cons_prefix_cons.mp hpre
      exact hname.question List.mem_cons_self
  unfold maskText
  rw [cutAt, if_neg hpre]
  cases cutAt name text with
  | none => rfl
  | some cut => rfl

/-- **The search goes from parameter to parameter.** -/
theorem maskText_intercalate {name : List Char} (hname : IsName name)
    {segs : List (List Char)} (hsegs : ∀ s ∈ segs, '&' ∉ s) :
    maskText name (['&'].intercalate segs) = ['&'].intercalate (maskFirst name segs) := by
  have hall : ∀ {s : List Char}, '&' ∉ s → ∀ c ∈ s, decide (c ≠ '&') = true := by
    intro s hs c hc
    exact decide_eq_true fun heq => hs (heq ▸ hc)
  have hafter : ∀ {s before after : List Char}, '&' ∉ s → cutAt name s = some (before, after) →
      '&' ∉ after := by
    intro s before after hs hcut hmem
    rw [eq_of_cutAt hcut] at hs
    exact hs (List.mem_append_right _ hmem)
  induction segs with
  | nil =>
    have hnil : cutAt name [] = none := if_neg hname.nonempty
    simp [maskText, maskFirst, hnil]
  | cons s segs ih =>
    have hs : '&' ∉ s := hsegs s List.mem_cons_self
    have ih := ih fun t ht => hsegs t (List.mem_cons_of_mem s ht)
    cases segs with
    | nil =>
      rw [List.intercalate_singleton, maskText, maskFirst]
      cases hcut : cutAt name s with
      | none => rw [maskFirst, List.intercalate_singleton]
      | some cut =>
        obtain ⟨before, after⟩ := cut
        have hfree := hall (hafter hs hcut)
        simp only [List.takeWhile_eq_self_iff.mpr hfree, List.dropWhile_eq_nil_iff.mpr hfree,
          List.append_nil, List.intercalate_singleton]
    | cons t segs =>
      rw [List.intercalate_cons_cons, List.append_assoc, List.singleton_append, maskText,
        cutAt_append_cons hname.ampersand hname.nonempty, maskFirst]
      cases hcut : cutAt name s with
      | some cut =>
        obtain ⟨before, after⟩ := cut
        have hfree := hall (hafter hs hcut)
        have htake : (after ++ '&' :: ['&'].intercalate (t :: segs)).takeWhile (· ≠ '&') =
            after := by
          rw [List.takeWhile_append_of_pos hfree]
          simp
        have hdrop : (after ++ '&' :: ['&'].intercalate (t :: segs)).dropWhile (· ≠ '&') =
            '&' :: ['&'].intercalate (t :: segs) := by
          rw [List.dropWhile_append_of_pos hfree]
          simp
        simp only [htake, hdrop]
        rw [List.intercalate_cons_cons]
        simp
      | none =>
        rw [maskText] at ih
        have hne : ∃ m ms, maskFirst name (t :: segs) = m :: ms := by
          rw [maskFirst]
          split
          · exact ⟨_, _, rfl⟩
          · exact ⟨_, _, rfl⟩
        obtain ⟨m, ms, hm⟩ := hne
        dsimp only
        rw [hm, List.intercalate_cons_cons, ← hm, ← ih]
        cases cutAt name (['&'].intercalate (t :: segs)) with
        | none => simp
        | some cut => simp

/-- A front without a question mark, and parameters without ampersands behind one. -/
structure IsQuery (url front : List Char) (segs : List (List Char)) : Prop where
  front_free : '?' ∉ front
  segs_ne : segs ≠ []
  segs_free : ∀ s ∈ segs, '&' ∉ s
  eq : url = front ++ '?' :: ['&'].intercalate segs

/-- The parameters after both names were looked for. -/
def censorSegs (segs : List (List Char)) : List (List Char) :=
  maskFirst appCodeName (maskFirst appIdName segs)

theorem maskFirst_free {name : List Char} (hname : IsName name) {segs : List (List Char)}
    (hsegs : ∀ s ∈ segs, '&' ∉ s) : ∀ s ∈ maskFirst name segs, '&' ∉ s := by
  induction segs with
  | nil => exact hsegs
  | cons s segs ih =>
    have hrest : ∀ t ∈ segs, '&' ∉ t := fun t ht => hsegs t (List.mem_cons_of_mem s ht)
    rw [maskFirst]
    split
    · rename_i before after hcut
      have hs := hsegs s List.mem_cons_self
      rw [eq_of_cutAt hcut] at hs
      intro t ht
      rcases List.mem_cons.mp ht with rfl | ht
      · simp only [List.mem_append, not_or, List.mem_replicate, not_and] at hs ⊢
        exact ⟨⟨hs.1.1, hname.ampersand⟩, fun _ => by decide⟩
      · exact hrest t ht
    · intro t ht
      rcases List.mem_cons.mp ht with rfl | ht
      · exact hsegs t List.mem_cons_self
      · exact ih hrest t ht

theorem maskFirst_ne_nil {name : List Char} {segs : List (List Char)} (h : segs ≠ []) :
    maskFirst name segs ≠ [] := by
  cases segs with
  | nil => exact absurd rfl h
  | cons s segs =>
    rw [maskFirst]
    split
    · exact List.cons_ne_nil _ _
    · exact List.cons_ne_nil _ _

/-- **What the code does to a URL** with a query. -/
theorem censor_query {url front : List Char} {segs : List (List Char)}
    (h : IsQuery url front segs) :
    IsQuery (censorCredentialsInUrl url) front (censorSegs segs) := by
  refine ⟨h.front_free, maskFirst_ne_nil (maskFirst_ne_nil h.segs_ne),
    maskFirst_free isName_appCode (maskFirst_free isName_appId h.segs_free), ?_⟩
  have hall : ∀ c ∈ front, decide (c ≠ '?') = true := by
    intro c hc
    exact decide_eq_true fun heq => h.front_free (heq ▸ hc)
  have hfind : find url ['?'] 0 = some front.length := by
    rw [find, if_pos (Nat.zero_le _), List.drop_zero, cutAt_singleton, h.eq,
      List.dropWhile_append_of_pos hall, List.takeWhile_append_of_pos hall]
    simp
  unfold censorCredentialsInUrl
  rw [hfind]
  dsimp only
  rw [h.eq, censorCredentialsPart_append, maskText_question isName_appId,
    maskText_intercalate isName_appId h.segs_free, censorCredentialsPart_append,
    maskText_question isName_appCode,
    maskText_intercalate isName_appCode (maskFirst_free isName_appId h.segs_free)]
  rfl

theorem censor_of_no_query {url : List Char} (h : '?' ∉ url) :
    censorCredentialsInUrl url = url := by
  have hall : ∀ c ∈ url, decide (c ≠ '?') = true := by
    intro c hc
    exact decide_eq_true fun heq => h (heq ▸ hc)
  have hfind : find url ['?'] 0 = none := by
    rw [find, if_pos (Nat.zero_le _), List.drop_zero, cutAt_singleton,
      List.dropWhile_eq_nil_iff.mpr hall]
    rfl
  unfold censorCredentialsInUrl
  rw [hfind]

theorem IsQuery.mem {url front : List Char} {segs : List (List Char)} (h : IsQuery url front segs) :
    '?' ∈ url := by
  rw [h.eq]
  exact List.mem_append_right _ List.mem_cons_self

/-- The front and the parameters of a URL are determined. -/
theorem IsQuery.unique {url front front' : List Char} {segs segs' : List (List Char)}
    (h : IsQuery url front segs) (h' : IsQuery url front' segs') :
    front = front' ∧ segs = segs' := by
  have hfront : ∀ {f : List Char} {ss : List (List Char)}, IsQuery url f ss →
      url.takeWhile (· ≠ '?') = f ∧ url.dropWhile (· ≠ '?') = '?' :: ['&'].intercalate ss := by
    intro f ss hq
    have hall : ∀ c ∈ f, decide (c ≠ '?') = true := by
      intro c hc
      exact decide_eq_true fun heq => hq.front_free (heq ▸ hc)
    rw [hq.eq, List.takeWhile_append_of_pos hall, List.dropWhile_append_of_pos hall]
    simp
  have hquery : ['&'].intercalate segs = ['&'].intercalate segs' :=
    (List.cons.inj ((hfront h).2.symm.trans (hfront h').2)).2
  refine ⟨(hfront h).1.symm.trans (hfront h').1, ?_⟩
  rw [← List.splitOn_intercalate '&' h.segs_free h.segs_ne, hquery,
    List.splitOn_intercalate '&' h'.segs_free h'.segs_ne]

theorem exists_isQuery {url : List Char} (h : '?' ∈ url) :
    ∃ front segs, IsQuery url front segs := by
  have hne : url.dropWhile (· ≠ '?') ≠ [] := by
    rw [Ne, List.dropWhile_eq_nil_iff]
    intro hall
    simpa using hall '?' h
  obtain ⟨c, rest, hrest⟩ := List.exists_cons_of_ne_nil hne
  have hc : c = '?' := by
    have hhead := List.head_dropWhile_not (fun c => decide (c ≠ '?')) hne
    simp only [hrest, List.head_cons] at hhead
    simpa using hhead
  obtain ⟨segs, hsegs, hfree, hjoin⟩ := exists_intercalate '&' rest
  refine ⟨url.takeWhile (· ≠ '?'), segs, ?_, hsegs, hfree, ?_⟩
  · intro hmem
    simpa using List.mem_takeWhile_imp hmem
  · conv_lhs => rw [← List.takeWhile_append_dropWhile (p := fun c => decide (c ≠ '?')) (l := url)]
    rw [hrest, hc, hjoin]

/-! ## Names in values -/

theorem appIdName_eq : appIdName = ['a', 'p', 'p', '_', 'i', 'd', '='] := rfl

theorem appCodeName_eq : appCodeName = ['a', 'p', 'p', '_', 'c', 'o', 'd', 'e', '='] := rfl

/-- One name does not begin in the other one. -/
theorem cutAt_appId_of_appCode (value : List Char) :
    cutAt appIdName (appCodeName ++ value) =
      (cutAt appIdName value).map fun (before, after) => (appCodeName ++ before, after) := by
  apply cutAt_append_of_apart
  rw [appIdName_eq, appCodeName_eq]
  decide

theorem cutAt_appCode_of_appId (value : List Char) :
    cutAt appCodeName (appIdName ++ value) =
      (cutAt appCodeName value).map fun (before, after) => (appIdName ++ before, after) := by
  apply cutAt_append_of_apart
  rw [appIdName_eq, appCodeName_eq]
  decide

/-- Neither name occurs in a value of one and the same other character. -/
theorem cutAt_replicate {name : List Char} {c : Char} (hc : ∃ d ∈ name, d ≠ c) (n : ℕ) :
    cutAt name (List.replicate n c) = none := by
  rw [cutAt_eq_none_iff]
  intro hwithin
  obtain ⟨d, hd, hne⟩ := hc
  exact hne (List.eq_of_mem_replicate (hwithin.subset hd))

theorem not_appCode_prefix {s : List Char} (h : appIdName <+: s) : ¬ appCodeName <+: s := by
  intro h'
  rcases List.prefix_or_prefix_of_prefix h h' with hpre | hpre
  · rw [appIdName_eq, appCodeName_eq] at hpre
    revert hpre
    decide
  · rw [appIdName_eq, appCodeName_eq] at hpre
    revert hpre
    decide

/-! ## What a search leaves -/

/-- Characters are kept or made asterisks. -/
def Stars (s t : List Char) : Prop := List.Forall₂ (fun a b => b = a ∨ b = '*') s t

theorem Stars.refl (s : List Char) : Stars s s := List.forall₂_same.mpr fun _ _ => Or.inl rfl

theorem Stars.antisymm {s t : List Char} (h : Stars s t) (h' : Stars t s) : s = t := by
  induction h with
  | nil => rfl
  | cons hab _ ih =>
    obtain ⟨hba, hrest⟩ := List.forall₂_cons.mp h'
    rw [ih hrest]
    rcases hab with rfl | rfl
    · rfl
    · rcases hba with rfl | rfl
      · rfl
      · rfl

theorem stars_replicate (l : List Char) : Stars l (List.replicate l.length '*') := by
  induction l with
  | nil => exact List.Forall₂.nil
  | cons c l ih => exact List.Forall₂.cons (Or.inr rfl) ih

theorem Stars.append {s s' t t' : List Char} (h : Stars s t) (h' : Stars s' t') :
    Stars (s ++ s') (t ++ t') :=
  List.rel_append h h'

theorem forall₂_append_right {α β : Type} {R : α → β → Prop} {l : List α} {m m' : List β}
    (h : List.Forall₂ R l (m ++ m')) :
    ∃ k k', l = k ++ k' ∧ List.Forall₂ R k m ∧ List.Forall₂ R k' m' :=
  ⟨l.take m.length, l.drop m.length, (List.take_append_drop _ _).symm,
    List.forall₂_take_append l m m' h, List.forall₂_drop_append l m m' h⟩

/-- A name is not written by the masking. -/
theorem Stars.infix_of {name s t : List Char} (h : Stars s t) (hstar : '*' ∉ name)
    (hwithin : name <:+: t) : name <:+: s := by
  obtain ⟨before, after, rfl⟩ := hwithin
  obtain ⟨s', after', rfl, hleft, -⟩ := forall₂_append_right h
  obtain ⟨before', name', rfl, -, hname⟩ := forall₂_append_right hleft
  have heq : name' = name := by
    clear h hleft
    induction hname with
    | nil => rfl
    | cons hab _ ih =>
      simp only [List.mem_cons, not_or] at hstar
      rw [ih hstar.2]
      rcases hab with rfl | rfl
      · rfl
      · exact absurd rfl hstar.1
  rw [heq]
  exact ⟨before', after', rfl⟩

theorem maskFirst_stars (name : List Char) (segs : List (List Char)) :
    List.Forall₂ Stars segs (maskFirst name segs) := by
  induction segs with
  | nil => exact List.Forall₂.nil
  | cons s segs ih =>
    rw [maskFirst]
    split
    · rename_i before after hcut
      refine List.Forall₂.cons ?_ (List.forall₂_same.mpr fun t _ => Stars.refl t)
      rw [eq_of_cutAt hcut]
      exact (Stars.refl _).append (stars_replicate after)
    · exact List.Forall₂.cons (Stars.refl s) ih

/-- The search ends in a front where there is something to find. -/
theorem maskFirst_append_of_found {name : List Char} {front : List (List Char)}
    (h : ∃ s ∈ front, name <:+: s) (segs : List (List Char)) :
    maskFirst name (front ++ segs) = maskFirst name front ++ segs := by
  induction front with
  | nil =>
    obtain ⟨s, hs, -⟩ := h
    cases hs
  | cons t front ih =>
    rw [List.cons_append, maskFirst, maskFirst]
    cases hcut : cutAt name t with
    | some cut => rfl
    | none =>
      have hrest : ∃ s ∈ front, name <:+: s := by
        obtain ⟨s, hs, hwithin⟩ := h
        rcases List.mem_cons.mp hs with rfl | hs
        · exact absurd hwithin (cutAt_eq_none_iff.mp hcut)
        · exact ⟨s, hs, hwithin⟩
      exact congrArg _ (ih hrest)

/-- It goes on behind a front where there is nothing. -/
theorem maskFirst_append_of_free {name : List Char} {front : List (List Char)}
    (h : ∀ s ∈ front, ¬ name <:+: s) (segs : List (List Char)) :
    maskFirst name (front ++ segs) = front ++ maskFirst name segs := by
  induction front with
  | nil => rfl
  | cons t front ih =>
    rw [List.cons_append, maskFirst, cutAt_eq_none_iff.mpr (h t List.mem_cons_self),
      ih fun s hs => h s (List.mem_cons_of_mem t hs)]
    rfl

/-- A parameter without the name is left as it is, in its place. -/
theorem maskFirst_append_cons {name s : List Char} (h : ¬ name <:+: s)
    (front segs : List (List Char)) :
    ∃ front' segs', maskFirst name (front ++ s :: segs) = front' ++ s :: segs' ∧
      front'.length = front.length := by
  by_cases hfound : ∃ t ∈ front, name <:+: t
  · refine ⟨maskFirst name front, segs, maskFirst_append_of_found hfound _, ?_⟩
    exact (maskFirst_stars name front).length_eq.symm
  · refine ⟨front, maskFirst name segs, ?_, rfl⟩
    rw [maskFirst_append_of_free fun t ht hwithin => hfound ⟨t, ht, hwithin⟩, maskFirst,
      cutAt_eq_none_iff.mpr h]

end OlpEdgeSdk.Analysis.MaskedParameters

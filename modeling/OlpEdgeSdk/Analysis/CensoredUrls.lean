import OlpEdgeSdk.Analysis.MaskedParameters

/-!
# What the log sees of credentials

Two URLs that differ only in the values of `app_id` and `app_code` ought to be censored to the
same text, with nothing else changed. Each name is looked for once, as a text. So the value of a
parameter is masked iff no other parameter before it contains the name, be it the parameter
once more, one whose name ends alike, or an `app_code` with the text in its value.

`hidden_iff` says exactly for which URLs all credentials stay out of the log and all else is
kept.
-/

set_option autoImplicit false

namespace OlpEdgeSdk.Analysis.CensoredUrls

open OlpEdgeSdk.Base OlpEdgeSdk.Model.Credentials OlpEdgeSdk.Analysis.MaskedParameters

/-! ## What is asked for -/

/-- Two parameters are the same up to the value of a credential. -/
def SameParameter (s t : List Char) : Prop :=
  s = t ∨ ∃ name ∈ [appIdName, appCodeName], ∃ a b : List Char,
    a.length = b.length ∧ s = name ++ a ∧ t = name ++ b

/-- Two URLs differ in the values of credentials only. -/
def DifferInValues (u v : List Char) : Prop :=
  u = v ∨ ∃ front segs segs', IsQuery u front segs ∧ IsQuery v front segs' ∧
    List.Forall₂ SameParameter segs segs'

/-- The credentials of a URL are not seen in what is logged of it, and everything else is. -/
def Hidden (u : List Char) : Prop :=
  ∀ v, DifferInValues u v → censorCredentialsInUrl v = censorCredentialsInUrl u ∧
    DifferInValues v (censorCredentialsInUrl v)

/-- The same of the parameters of a query. -/
def HiddenSegs (segs : List (List Char)) : Prop :=
  ∀ segs', (∀ s ∈ segs', '&' ∉ s) → List.Forall₂ SameParameter segs segs' →
    censorSegs segs' = censorSegs segs ∧ List.Forall₂ SameParameter segs' (censorSegs segs')

/-- A parameter that contains a name whatever the value of the other credential is. -/
def Shows (name other s : List Char) : Prop := name <:+: s ∧ ¬ other <+: s

/-- The search for a name comes to the value that it is about: before a parameter of that name
with a value no other parameter shows the name, and where the first one that shows it is not a
credential there are at most asterisks behind it. -/
structure Reaches (name other : List Char) (segs : List (List Char)) : Prop where
  value : ∀ before value after, segs = before ++ (name ++ value) :: after → value ≠ [] →
    ∀ s ∈ before, ¬ Shows name other s
  rest : ∀ before s after, segs = before ++ s :: after → ¬ name <+: s → ¬ other <+: s →
    (∀ t ∈ before, ¬ Shows name other t) →
    ∀ head tail, cutAt name s = some (head, tail) → ∀ c ∈ tail, c = '*'

/-- No `app_code` before an `app_id` with a value has room for `app_id=` in its own. -/
def NoRoom (segs : List (List Char)) : Prop :=
  ∀ before value after, segs = before ++ (appIdName ++ value) :: after → value ≠ [] →
    ∀ s ∈ before, appCodeName <+: s → s.length < (appCodeName ++ appIdName).length

/-- Both searches come to the values that they are about. -/
structure Safe (segs : List (List Char)) : Prop where
  appId : Reaches appIdName appCodeName segs
  appCode : Reaches appCodeName appIdName segs
  noRoom : NoRoom segs

/-! ## Parameters as they ought to be logged -/

/-- A parameter with its value masked. -/
def starred (name s : List Char) : List Char :=
  name ++ List.replicate (s.length - name.length) '*'

/-- A parameter as it ought to be logged. -/
def censored (s : List Char) : List Char :=
  if appIdName <+: s then starred appIdName s
  else if appCodeName <+: s then starred appCodeName s
  else s

theorem starred_append (name value : List Char) :
    starred name (name ++ value) = name ++ List.replicate value.length '*' := by
  rw [starred, List.length_append, Nat.add_sub_cancel_left]

theorem SameParameter.kinds {s t : List Char} (h : SameParameter s t) :
    (∃ a b : List Char, a.length = b.length ∧ s = appIdName ++ a ∧ t = appIdName ++ b) ∨
      (∃ a b : List Char, a.length = b.length ∧ s = appCodeName ++ a ∧ t = appCodeName ++ b) ∨
      (¬ appIdName <+: s ∧ ¬ appCodeName <+: s ∧ t = s) := by
  rcases h with rfl | ⟨name, hname, hab⟩
  · by_cases hid : appIdName <+: s
    · obtain ⟨a, rfl⟩ := hid
      exact Or.inl ⟨a, a, rfl, rfl, rfl⟩
    · by_cases hcode : appCodeName <+: s
      · obtain ⟨a, rfl⟩ := hcode
        exact Or.inr (Or.inl ⟨a, a, rfl, rfl, rfl⟩)
      · exact Or.inr (Or.inr ⟨hid, hcode, rfl⟩)
  · simp only [List.mem_cons, List.not_mem_nil, or_false] at hname
    rcases hname with rfl | rfl
    · exact Or.inl hab
    · exact Or.inr (Or.inl hab)

/-- As it ought to be logged a parameter is the same up to its value. -/
theorem sameParameter_censored {s t : List Char} (h : SameParameter s t) :
    SameParameter t (censored s) := by
  rcases h.kinds with ⟨a, b, hlength, rfl, rfl⟩ | ⟨a, b, hlength, rfl, rfl⟩ | ⟨hid, hcode, rfl⟩
  · rw [censored, if_pos (List.prefix_append _ _), starred_append]
    exact Or.inr ⟨appIdName, by simp, b, _, by rw [List.length_replicate, hlength], rfl, rfl⟩
  · have hid : ¬ appIdName <+: appCodeName ++ a :=
      fun h => not_appCode_prefix h (List.prefix_append _ _)
    rw [censored, if_neg hid, if_pos (List.prefix_append _ _), starred_append]
    exact Or.inr ⟨appCodeName, by simp, b, _, by rw [List.length_replicate, hlength], rfl, rfl⟩
  · rw [censored, if_neg hid, if_neg hcode]
    exact Or.inl rfl

/-- What a parameter is after the first search. -/
def AfterAppId (s t : List Char) : Prop :=
  (appIdName <+: s ∧ t = starred appIdName s) ∨
    (appCodeName <+: s ∧ appCodeName <+: t ∧ t.length = s.length) ∨
    (¬ appIdName <+: s ∧ ¬ appCodeName <+: s ∧ t = s)

theorem afterAppId_of_same {s t : List Char} (hsame : SameParameter s t)
    (hvalue : ∀ value, s = appIdName ++ value → value = []) : AfterAppId s t := by
  rcases hsame.kinds with ⟨a, b, hlength, rfl, rfl⟩ | ⟨a, b, hlength, rfl, rfl⟩ | hother
  · obtain rfl := hvalue a rfl
    obtain rfl : b = [] := List.length_eq_zero_iff.mp hlength.symm
    exact Or.inl ⟨List.prefix_append _ _, (starred_append appIdName []).symm⟩
  · refine Or.inr (Or.inl ⟨List.prefix_append _ _, List.prefix_append _ _, ?_⟩)
    rw [List.length_append, List.length_append, hlength]
  · exact Or.inr (Or.inr hother)

/-- Parameters without a value to mask. -/
theorem afterAppId_of_forall₂ {segs segs' : List (List Char)}
    (hsame : List.Forall₂ SameParameter segs segs')
    (hvalue : ∀ s ∈ segs, ∀ value, s = appIdName ++ value → value = []) :
    List.Forall₂ AfterAppId segs segs' := by
  induction hsame with
  | nil => exact List.Forall₂.nil
  | @cons s t segs segs' hst _ ih =>
    refine List.Forall₂.cons (afterAppId_of_same hst (hvalue s List.mem_cons_self)) (ih ?_)
    exact fun u hu => hvalue u (List.mem_cons_of_mem s hu)

/-- Behind a parameter that shows the name there is no value. -/
theorem Reaches.value_eq_nil {name other s : List Char} {segs : List (List Char)}
    (h : Reaches name other (s :: segs)) (hs : Shows name other s) :
    ∀ u ∈ segs, ∀ value, u = name ++ value → value = [] := by
  intro u hu value hvalue
  obtain ⟨before, after, rfl⟩ := List.append_of_mem hu
  by_contra hne
  exact h.value (s :: before) value after (by rw [hvalue]; rfl) hne s List.mem_cons_self hs

theorem Reaches.tail {name other s : List Char} {segs : List (List Char)}
    (h : Reaches name other (s :: segs)) (hs : ¬ Shows name other s) :
    Reaches name other segs := by
  constructor
  · intro before value after heq hvalue t ht
    exact h.value (s :: before) value after (by rw [heq]; rfl) hvalue t
      (List.mem_cons_of_mem s ht)
  · intro before t after heq hname hother hbefore
    refine h.rest (s :: before) t after (by rw [heq]; rfl) hname hother ?_
    intro u hu
    rcases List.mem_cons.mp hu with rfl | hu
    · exact hs
    · exact hbefore u hu

theorem NoRoom.tail {s : List Char} {segs : List (List Char)} (h : NoRoom (s :: segs)) :
    NoRoom segs := by
  intro before value after heq hvalue t ht
  exact h (s :: before) value after (by rw [heq]; rfl) hvalue t (List.mem_cons_of_mem s ht)

/-! ## The searches reach the values -/

/-- The first search masks the values of `app_id`. -/
theorem maskFirst_appId {segs segs' : List (List Char)}
    (hreach : Reaches appIdName appCodeName segs)
    (hroom : NoRoom segs) (hsame : List.Forall₂ SameParameter segs segs') :
    List.Forall₂ AfterAppId segs (maskFirst appIdName segs') := by
  induction hsame with
  | nil => exact List.Forall₂.nil
  | @cons s t segs segs' hst hsame ih =>
    rw [maskFirst]
    rcases hst.kinds with ⟨a, b, hlength, rfl, rfl⟩ | ⟨a, b, hlength, rfl, rfl⟩ | ⟨hid, hcode, rfl⟩
    · rw [cutAt_needle_append]
      have hshow : Shows appIdName appCodeName (appIdName ++ a) :=
        ⟨(List.prefix_append _ _).isInfix, not_appCode_prefix (List.prefix_append _ _)⟩
      refine List.Forall₂.cons (Or.inl ⟨List.prefix_append _ _, ?_⟩)
        (afterAppId_of_forall₂ hsame (hreach.value_eq_nil hshow))
      rw [starred_append, hlength]
      rfl
    · have hhide : ¬ Shows appIdName appCodeName (appCodeName ++ a) :=
        fun h => h.2 (List.prefix_append _ _)
      rw [cutAt_appId_of_appCode]
      cases hcut : cutAt appIdName b with
      | none =>
        refine List.Forall₂.cons (Or.inr (Or.inl ⟨List.prefix_append _ _,
          List.prefix_append _ _, ?_⟩)) (ih (hreach.tail hhide) hroom.tail)
        rw [List.length_append, List.length_append, hlength]
      | some cut =>
        obtain ⟨head, tail⟩ := cut
        obtain rfl := eq_of_cutAt hcut
        -- the value has room for the name, so there is no value to mask behind it
        have hempty : ∀ u ∈ segs, ∀ value, u = appIdName ++ value → value = [] := by
          intro u hu value hvalue
          obtain ⟨before, after, rfl⟩ := List.append_of_mem hu
          by_contra hne
          have hlt := hroom ((appCodeName ++ a) :: before) value after (by rw [hvalue]; rfl) hne
            _ List.mem_cons_self (List.prefix_append _ _)
          simp only [List.length_append] at hlt hlength
          omega
        refine List.Forall₂.cons (Or.inr (Or.inl ⟨List.prefix_append _ _, ?_, ?_⟩))
          (afterAppId_of_forall₂ hsame hempty)
        · rw [List.append_assoc, List.append_assoc]
          exact List.prefix_append _ _
        · simp only [List.length_append, List.length_replicate] at hlength ⊢
          omega
    · cases hcut : cutAt appIdName t with
      | none =>
        have hhide : ¬ Shows appIdName appCodeName t := fun h => cutAt_eq_none_iff.mp hcut h.1
        exact List.Forall₂.cons (Or.inr (Or.inr ⟨hid, hcode, rfl⟩))
          (ih (hreach.tail hhide) hroom.tail)
      | some cut =>
        obtain ⟨head, tail⟩ := cut
        have ht := eq_of_cutAt hcut
        have hshow : Shows appIdName appCodeName t := ⟨⟨head, tail, ht.symm⟩, hcode⟩
        refine List.Forall₂.cons (Or.inr (Or.inr ⟨hid, hcode, ?_⟩))
          (afterAppId_of_forall₂ hsame (hreach.value_eq_nil hshow))
        have hstars := hreach.rest [] t segs rfl hid hcode (by simp) head tail hcut
        rw [← List.eq_replicate_of_mem hstars]
        exact ht.symm

/-- Parameters without a value to mask, as they ought to be logged. -/
theorem eq_map_censored {segs segs' : List (List Char)}
    (hafter : List.Forall₂ AfterAppId segs segs')
    (hvalue : ∀ s ∈ segs, ∀ value, s = appCodeName ++ value → value = []) :
    segs' = segs.map censored := by
  induction hafter with
  | nil => rfl
  | @cons s t segs segs' hst _ ih =>
    have hrest := ih fun u hu => hvalue u (List.mem_cons_of_mem s hu)
    rw [List.map_cons, ← hrest, List.cons.injEq]
    refine ⟨?_, rfl⟩
    rcases hst with ⟨hid, rfl⟩ | ⟨⟨a, rfl⟩, ⟨b, rfl⟩, hlength⟩ | ⟨hid, hcode, rfl⟩
    · rw [censored, if_pos hid]
    · obtain rfl := hvalue _ List.mem_cons_self a rfl
      obtain rfl : b = [] := by simpa using hlength
      have hid : ¬ appIdName <+: appCodeName ++ [] :=
        fun h => not_appCode_prefix h (List.prefix_append _ _)
      rw [censored, if_neg hid, if_pos (List.prefix_append _ _), starred_append]
      rfl
    · rw [censored, if_neg hid, if_neg hcode]

theorem cutAt_appCode_starred (s : List Char) : cutAt appCodeName (starred appIdName s) = none := by
  rw [starred, cutAt_appCode_of_appId, cutAt_replicate ⟨'a', by decide, by decide⟩]
  rfl

/-- The second search masks the values of `app_code`. -/
theorem maskFirst_appCode {segs segs' : List (List Char)}
    (hreach : Reaches appCodeName appIdName segs) (hafter : List.Forall₂ AfterAppId segs segs') :
    maskFirst appCodeName segs' = segs.map censored := by
  induction hafter with
  | nil => rfl
  | @cons s t segs segs' hst hafter ih =>
    rw [maskFirst, List.map_cons]
    rcases hst with ⟨hid, rfl⟩ | ⟨⟨a, rfl⟩, ⟨b, rfl⟩, hlength⟩ | ⟨hid, hcode, rfl⟩
    · have hhide : ¬ Shows appCodeName appIdName s := fun h => h.2 hid
      rw [cutAt_appCode_starred, censored, if_pos hid]
      exact congrArg _ (ih (hreach.tail hhide))
    · have hid : ¬ appIdName <+: appCodeName ++ a :=
        fun h => not_appCode_prefix h (List.prefix_append _ _)
      have hshow : Shows appCodeName appIdName (appCodeName ++ a) :=
        ⟨(List.prefix_append _ _).isInfix, hid⟩
      have hlength : b.length = a.length := by simpa using hlength
      rw [cutAt_needle_append, censored, if_neg hid, if_pos (List.prefix_append _ _),
        starred_append, ← eq_map_censored hafter (hreach.value_eq_nil hshow), ← hlength]
      rfl
    · rw [censored, if_neg hid, if_neg hcode]
      cases hcut : cutAt appCodeName t with
      | none =>
        have hhide : ¬ Shows appCodeName appIdName t := fun h => cutAt_eq_none_iff.mp hcut h.1
        exact congrArg _ (ih (hreach.tail hhide))
      | some cut =>
        obtain ⟨head, tail⟩ := cut
        have ht := eq_of_cutAt hcut
        have hshow : Shows appCodeName appIdName t := ⟨⟨head, tail, ht.symm⟩, hid⟩
        have hstars := hreach.rest [] t segs rfl hcode hid (by simp) head tail hcut
        rw [← eq_map_censored hafter (hreach.value_eq_nil hshow)]
        dsimp only
        rw [← List.eq_replicate_of_mem hstars]
        exact congrArg (· :: segs') ht.symm

/-- **Safe parameters are logged as they ought to be**, whatever their values. -/
theorem censorSegs_of_safe {segs segs' : List (List Char)} (h : Safe segs)
    (hsame : List.Forall₂ SameParameter segs segs') : censorSegs segs' = segs.map censored :=
  maskFirst_appCode h.appCode (maskFirst_appId h.appId h.noRoom hsame)

theorem hiddenSegs_of_safe {segs : List (List Char)} (h : Safe segs) : HiddenSegs segs := by
  intro segs' _ hsame
  have hrefl : List.Forall₂ SameParameter segs segs :=
    List.forall₂_same.mpr fun s _ => Or.inl rfl
  rw [censorSegs_of_safe h hsame, censorSegs_of_safe h hrefl]
  refine ⟨rfl, ?_⟩
  rw [List.forall₂_map_right_iff]
  exact hsame.flip.imp fun _ _ hst => sameParameter_censored hst

/-! ## Hidden parameters are reached -/

theorem forall₂_append_cons {α β : Type} {R : α → β → Prop} {l l' : List α} {a : α} {m : List β}
    (h : List.Forall₂ R (l ++ a :: l') m) :
    ∃ k b k', m = k ++ b :: k' ∧ List.Forall₂ R l k ∧ R a b := by
  induction l generalizing m with
  | nil =>
    obtain ⟨b, k', hab, -, rfl⟩ := List.forall₂_cons_left_iff.mp h
    exact ⟨[], b, k', rfl, List.Forall₂.nil, hab⟩
  | cons x l ih =>
    obtain ⟨y, m, hxy, hrest, rfl⟩ := List.forall₂_cons_left_iff.mp h
    obtain ⟨k, b, k', rfl, hfront, hab⟩ := ih hrest
    exact ⟨y :: k, b, k', rfl, List.Forall₂.cons hxy hfront, hab⟩

theorem exists_of_forall₂ {α β : Type} {R : α → β → Prop} {l : List α} {m : List β}
    (h : List.Forall₂ R l m) {a : α} (ha : a ∈ l) : ∃ b ∈ m, R a b := by
  obtain ⟨l, l', rfl⟩ := List.append_of_mem ha
  obtain ⟨k, b, k', rfl, -, hab⟩ := forall₂_append_cons h
  exact ⟨b, List.mem_append_right k List.mem_cons_self, hab⟩

theorem forall₂_join {α : Type} {P Q R S : α → α → Prop}
    (h : ∀ s t u, P s t → Q t u → R s u → S s t) {l m k : List α} (hlm : List.Forall₂ P l m)
    (hmk : List.Forall₂ Q m k) (hlk : List.Forall₂ R l k) : List.Forall₂ S l m := by
  induction hlm generalizing k with
  | nil => exact List.Forall₂.nil
  | cons hst _ ih =>
    obtain ⟨u, k, htu, hrest, rfl⟩ := List.forall₂_cons_left_iff.mp hmk
    obtain ⟨hsu, hrest'⟩ := List.forall₂_cons.mp hlk
    exact List.Forall₂.cons (h _ _ _ hst htu hsu) (ih hrest hrest')

/-- The two names. -/
def Pair (name other : List Char) : Prop :=
  (name = appIdName ∧ other = appCodeName) ∨ (name = appCodeName ∧ other = appIdName)

namespace Pair

variable {name other : List Char}

theorem symm (h : Pair name other) : Pair other name := by
  rcases h with ⟨rfl, rfl⟩ | ⟨rfl, rfl⟩
  · exact Or.inr ⟨rfl, rfl⟩
  · exact Or.inl ⟨rfl, rfl⟩

theorem mem (h : Pair name other) : name ∈ [appIdName, appCodeName] := by
  rcases h with ⟨rfl, rfl⟩ | ⟨rfl, rfl⟩
  · exact List.mem_cons_self
  · exact List.mem_cons_of_mem _ List.mem_cons_self

theorem isName (h : Pair name other) : IsName name := by
  rcases h with ⟨rfl, rfl⟩ | ⟨rfl, rfl⟩
  · exact isName_appId
  · exact isName_appCode

theorem not_prefix (h : Pair name other) {s : List Char} (hs : name <+: s) : ¬ other <+: s := by
  rcases h with ⟨rfl, rfl⟩ | ⟨rfl, rfl⟩
  · exact not_appCode_prefix hs
  · exact fun hid => not_appCode_prefix hid hs

/-- A value of one other character does not hold the other name. -/
theorem not_infix (h : Pair name other) {c : Char} (hc : c = 'x' ∨ c = 'y') (n : ℕ) :
    ¬ name <:+: other ++ List.replicate n c := by
  have ha : ∃ d ∈ name, d ≠ c := by
    refine ⟨'a', ?_, ?_⟩
    · rcases h with ⟨rfl, rfl⟩ | ⟨rfl, rfl⟩
      · decide
      · decide
    · rcases hc with rfl | rfl
      · decide
      · decide
  rw [← cutAt_eq_none_iff]
  rcases h with ⟨rfl, rfl⟩ | ⟨rfl, rfl⟩
  · rw [cutAt_appId_of_appCode, cutAt_replicate ha]
    rfl
  · rw [cutAt_appCode_of_appId, cutAt_replicate ha]
    rfl

theorem sameParameter (h : Pair name other) {a b : List Char} (hlength : a.length = b.length) :
    SameParameter (name ++ a) (name ++ b) :=
  Or.inr ⟨name, h.mem, a, b, hlength, rfl, rfl⟩

end Pair

/-- **A value that is not masked is seen**: if for two values of the same length it is found
again in its place, the parameters are not hidden. -/
theorem not_hiddenSegs_of_kept {name other value : List Char} (hpair : Pair name other)
    (hvalue : value ≠ []) {before before' after : List (List Char)}
    (hfree : ∀ s ∈ before' ++ after, '&' ∉ s)
    (hbefore : List.Forall₂ SameParameter before before')
    (hkept : ∀ c, c = 'x' ∨ c = 'y' → ∃ l r,
      censorSegs (before' ++ (name ++ List.replicate value.length c) :: after) =
        l ++ (name ++ List.replicate value.length c) :: r ∧ l.length = before'.length) :
    ¬ HiddenSegs (before ++ (name ++ value) :: after) := by
  intro hhidden
  have hcensor : ∀ c, c = 'x' ∨ c = 'y' →
      censorSegs (before' ++ (name ++ List.replicate value.length c) :: after) =
        censorSegs (before ++ (name ++ value) :: after) := by
    intro c hc
    refine (hhidden _ ?_ ?_).1
    · intro s hs
      simp only [List.mem_append, List.mem_cons] at hs hfree
      rcases hs with hs | rfl | hs
      · exact hfree s (Or.inl hs)
      · intro hamp
        rcases List.mem_append.mp hamp with hamp | hamp
        · exact hpair.isName.ampersand hamp
        · have heq := List.eq_of_mem_replicate hamp
          rcases hc with rfl | rfl
          · revert heq
            decide
          · revert heq
            decide
      · exact hfree s (Or.inr hs)
    · refine List.rel_append hbefore (List.Forall₂.cons (hpair.sameParameter ?_) ?_)
      · rw [List.length_replicate]
      · exact List.forall₂_same.mpr fun s _ => Or.inl rfl
  obtain ⟨l, r, hx, hl⟩ := hkept 'x' (Or.inl rfl)
  obtain ⟨l', r', hy, hl'⟩ := hkept 'y' (Or.inr rfl)
  have heq : l ++ (name ++ List.replicate value.length 'x') :: r =
      l' ++ (name ++ List.replicate value.length 'y') :: r' := by
    rw [← hx, ← hy, hcensor 'x' (Or.inl rfl), hcensor 'y' (Or.inr rfl)]
  have hvalues := (List.cons.inj (List.append_inj heq (hl.trans hl'.symm)).2).1
  have hstars := List.append_cancel_left hvalues
  obtain ⟨c, rest, rfl⟩ := List.exists_cons_of_ne_nil hvalue
  rw [List.length_cons, List.replicate_succ, List.replicate_succ] at hstars
  exact absurd (List.cons.inj hstars).1 (by decide)

/-- What the first search leaves of a hidden query: other parameters are as they were, and an
`app_code` is still one. -/
theorem maskFirst_of_hidden {segs : List (List Char)}
    (hsame : List.Forall₂ SameParameter segs (censorSegs segs)) :
    List.Forall₂ (fun s t => (¬ appIdName <+: s → ¬ appCodeName <+: s → t = s))
      segs (maskFirst appIdName segs) := by
  refine forall₂_join (P := Stars) (Q := Stars) (R := SameParameter) ?_ (maskFirst_stars _ _)
    (maskFirst_stars _ _) hsame
  intro s t u hst htu hsu hid hcode
  rcases hsu.kinds with ⟨a, b, -, rfl, -⟩ | ⟨a, b, -, rfl, -⟩ | ⟨-, -, rfl⟩
  · exact absurd (List.prefix_append _ _) hid
  · exact absurd (List.prefix_append _ _) hcode
  · exact htu.antisymm hst

theorem appCode_of_maskFirst (segs : List (List Char)) :
    List.Forall₂ (fun s t => appCodeName <+: s → appCodeName <+: t) segs
      (maskFirst appIdName segs) := by
  induction segs with
  | nil => exact List.Forall₂.nil
  | cons s segs ih =>
    rw [maskFirst]
    cases hcut : cutAt appIdName s with
    | none => exact List.Forall₂.cons (fun h => h) ih
    | some cut =>
      refine List.Forall₂.cons ?_ (List.forall₂_same.mpr fun t _ h => h)
      rintro ⟨value, rfl⟩
      rw [cutAt_appId_of_appCode, Option.map_eq_some_iff] at hcut
      obtain ⟨⟨head, tail⟩, -, rfl⟩ := hcut
      simp only [List.append_assoc]
      exact List.prefix_append _ _

/-- A query of which every value is reached, with values of one character each. -/
def plain (s : List Char) : List Char :=
  if appIdName <+: s then appIdName ++ List.replicate (s.length - appIdName.length) 'x'
  else if appCodeName <+: s then appCodeName ++ List.replicate (s.length - appCodeName.length) 'x'
  else s

theorem sameParameter_plain (s : List Char) : SameParameter s (plain s) := by
  unfold plain
  split
  · rename_i hid
    obtain ⟨a, rfl⟩ := hid
    exact Or.inr ⟨appIdName, by simp, a, _, by simp, rfl, rfl⟩
  · split
    · rename_i hcode
      obtain ⟨a, rfl⟩ := hcode
      exact Or.inr ⟨appCodeName, by simp, a, _, by simp, rfl, rfl⟩
    · exact Or.inl rfl

theorem plain_free {s : List Char} (h : '&' ∉ s) : '&' ∉ plain s := by
  have hvalue : ∀ n, '&' ∉ List.replicate n 'x' := by
    intro n hmem
    exact absurd (List.eq_of_mem_replicate hmem) (by decide)
  unfold plain
  split
  · rw [List.mem_append, not_or]
    exact ⟨by decide, hvalue _⟩
  · split
    · rw [List.mem_append, not_or]
      exact ⟨by decide, hvalue _⟩
    · exact h

theorem not_infix_plain {name other s : List Char} (hpair : Pair name other)
    (h : ¬ Shows name other s) : ¬ name <:+: plain s := by
  have hname : ¬ name <+: s := fun hpre => h ⟨hpre.isInfix, hpair.not_prefix hpre⟩
  by_cases hother : other <+: s
  · have hplain : plain s = other ++ List.replicate (s.length - other.length) 'x' := by
      rcases hpair with ⟨rfl, rfl⟩ | ⟨rfl, rfl⟩
      · rw [plain, if_neg hname, if_pos hother]
      · rw [plain, if_pos hother]
    rw [hplain]
    exact hpair.not_infix (Or.inl rfl) _
  · have hplain : plain s = s := by
      rcases hpair with ⟨rfl, rfl⟩ | ⟨rfl, rfl⟩
      · rw [plain, if_neg hname, if_neg hother]
      · rw [plain, if_neg hother, if_neg hname]
    rw [hplain]
    exact fun hwithin => h ⟨hwithin, hother⟩

/-- The value of an `app_id` stays where the name is found before it. -/
theorem not_hiddenSegs_of_found {value : List Char} (hvalue : value ≠ [])
    {before after : List (List Char)} (before' : List (List Char))
    (hfree : ∀ s ∈ before' ++ after, '&' ∉ s)
    (hbefore : List.Forall₂ SameParameter before before')
    (hfound : ∃ s ∈ before', appIdName <:+: s) :
    ¬ HiddenSegs (before ++ (appIdName ++ value) :: after) := by
  have hpair : Pair appIdName appCodeName := Or.inl ⟨rfl, rfl⟩
  refine not_hiddenSegs_of_kept hpair hvalue hfree hbefore ?_
  intro c hc
  unfold censorSegs
  rw [maskFirst_append_of_found hfound]
  obtain ⟨l, r, hl, hlength⟩ := maskFirst_append_cons (hpair.symm.not_infix hc value.length)
    (maskFirst appIdName before') after
  refine ⟨l, r, hl, hlength.trans ?_⟩
  exact (maskFirst_stars appIdName before').length_eq.symm

theorem noRoom_of_hidden {segs : List (List Char)} (hfree : ∀ s ∈ segs, '&' ∉ s)
    (h : HiddenSegs segs) : NoRoom segs := by
  rintro before value after rfl hvalue s hs hcode
  by_contra hlong
  obtain ⟨front, back, rfl⟩ := List.append_of_mem hs
  obtain ⟨a, rfl⟩ := hcode
  rw [List.length_append, List.length_append] at hlong
  -- put the text `app_id=` into the value of the `app_code`
  have hlength : a.length =
      (appIdName ++ List.replicate (a.length - appIdName.length) 'x').length := by
    rw [List.length_append, List.length_replicate]
    omega
  have hrefl : ∀ l : List (List Char), List.Forall₂ SameParameter l l :=
    fun l => List.forall₂_same.mpr fun s _ => Or.inl rfl
  have hpair : Pair appCodeName appIdName := Or.inr ⟨rfl, rfl⟩
  refine not_hiddenSegs_of_found hvalue (front ++ (appCodeName ++
    (appIdName ++ List.replicate (a.length - appIdName.length) 'x')) :: back) ?_
    (List.rel_append (hrefl front) (List.Forall₂.cons (hpair.sameParameter hlength) (hrefl back)))
    ⟨_, List.mem_append_right _ List.mem_cons_self, ?_⟩ h
  · intro t ht
    simp only [List.mem_append, List.mem_cons] at ht hfree
    rcases ht with (ht | rfl | ht) | ht
    · exact hfree t (Or.inl (Or.inl ht))
    · intro hamp
      rw [List.mem_append, List.mem_append] at hamp
      rcases hamp with hamp | hamp | hamp
      · exact isName_appCode.ampersand hamp
      · exact isName_appId.ampersand hamp
      · exact absurd (List.eq_of_mem_replicate hamp) (by decide)
    · exact hfree t (Or.inl (Or.inr (Or.inr ht)))
    · exact hfree t (Or.inr (Or.inr ht))
  · exact ⟨appCodeName, _, List.append_assoc _ _ _⟩

theorem value_appId_of_hidden {segs : List (List Char)} (hfree : ∀ s ∈ segs, '&' ∉ s)
    (h : HiddenSegs segs) : ∀ before value after, segs = before ++ (appIdName ++ value) :: after →
      value ≠ [] → ∀ s ∈ before, ¬ Shows appIdName appCodeName s := by
  rintro before value after rfl hvalue s hs hshow
  refine not_hiddenSegs_of_found hvalue _ ?_ (List.forall₂_same.mpr fun s _ => Or.inl rfl)
    ⟨s, hs, hshow.1⟩ h
  intro t ht
  apply hfree
  rw [List.mem_append] at ht ⊢
  exact ht.imp_right (List.mem_cons_of_mem _)

theorem value_appCode_of_hidden {segs : List (List Char)} (hfree : ∀ s ∈ segs, '&' ∉ s)
    (h : HiddenSegs segs) :
    ∀ before value after, segs = before ++ (appCodeName ++ value) :: after →
      value ≠ [] → ∀ s ∈ before, ¬ Shows appCodeName appIdName s := by
  rintro before value after rfl hvalue s hs hshow
  have hpair : Pair appCodeName appIdName := Or.inr ⟨rfl, rfl⟩
  have hrefl : ∀ l : List (List Char), List.Forall₂ SameParameter l l :=
    fun l => List.forall₂_same.mpr fun s _ => Or.inl rfl
  have hfree' : ∀ s ∈ before ++ after, '&' ∉ s := by
    intro t ht
    apply hfree
    rw [List.mem_append] at ht ⊢
    exact ht.imp_right (List.mem_cons_of_mem _)
  refine not_hiddenSegs_of_kept hpair hvalue hfree' (hrefl before) ?_ h
  intro c hc
  unfold censorSegs
  obtain ⟨front, back, hfirst, hlength⟩ := maskFirst_append_cons
    (hpair.symm.not_infix hc value.length) before after
  have hsame : List.Forall₂ SameParameter
      (before ++ (appCodeName ++ List.replicate value.length c) :: after)
      (censorSegs (before ++ (appCodeName ++ List.replicate value.length c) :: after)) := by
    refine (h _ ?_ (List.rel_append (hrefl before) (List.Forall₂.cons
      (hpair.sameParameter List.length_replicate.symm) (hrefl after)))).2
    intro t ht
    rw [List.mem_append, List.mem_cons] at ht
    rcases ht with ht | rfl | ht
    · exact hfree' t (List.mem_append_left _ ht)
    · intro hamp
      rcases List.mem_append.mp hamp with hamp | hamp
      · exact isName_appCode.ampersand hamp
      · have heq := List.eq_of_mem_replicate hamp
        rcases hc with rfl | rfl
        · revert heq
          decide
        · revert heq
          decide
    · exact hfree' t (List.mem_append_right _ ht)
  -- what shows the name before the first search shows it after it as well
  have hfound : ∃ t ∈ front, appCodeName <:+: t := by
    obtain ⟨k, t, k', hk, hfront, -⟩ := forall₂_append_cons (maskFirst_of_hidden hsame)
    obtain ⟨m, u, m', hm, hfront', -⟩ := forall₂_append_cons (appCode_of_maskFirst
      (before ++ (appCodeName ++ List.replicate value.length c) :: after))
    rw [hfirst] at hk hm
    obtain ⟨rfl, -⟩ := List.append_inj hk (hlength.trans hfront.length_eq)
    obtain ⟨rfl, -⟩ := List.append_inj hm (hlength.trans hfront'.length_eq)
    by_cases hcode : appCodeName <+: s
    · obtain ⟨t, ht, hst⟩ := exists_of_forall₂ hfront' hs
      exact ⟨t, ht, (hst hcode).isInfix⟩
    · obtain ⟨t, ht, hst⟩ := exists_of_forall₂ hfront hs
      obtain rfl := hst hshow.2 hcode
      exact ⟨t, ht, hshow.1⟩
  rw [hfirst, maskFirst_append_of_found hfound]
  refine ⟨_, back, rfl, ?_⟩
  rw [← (maskFirst_stars appCodeName front).length_eq, hlength]

/-- What a search does to the first parameter that shows the name, in a query that is hidden. -/
theorem stars_of_masked {name s head tail : List Char} (hcut : cutAt name s = some (head, tail))
    (hkept : head ++ name ++ List.replicate tail.length '*' = s) : ∀ c ∈ tail, c = '*' := by
  rw [eq_of_cutAt hcut] at hkept
  intro c hc
  rw [← List.append_cancel_left hkept] at hc
  exact List.eq_of_mem_replicate hc

theorem rest_of_hidden {segs : List (List Char)} (hfree : ∀ s ∈ segs, '&' ∉ s)
    (h : HiddenSegs segs) {name other : List Char} (hpair : Pair name other) :
    ∀ before s after, segs = before ++ s :: after → ¬ name <+: s → ¬ other <+: s →
      (∀ t ∈ before, ¬ Shows name other t) →
      ∀ head tail, cutAt name s = some (head, tail) → ∀ c ∈ tail, c = '*' := by
  rintro before s after rfl hname hother hbefore head tail hcut
  have hid : ¬ appIdName <+: s := by
    rcases hpair with ⟨rfl, rfl⟩ | ⟨rfl, rfl⟩
    · exact hname
    · exact hother
  have hcode : ¬ appCodeName <+: s := by
    rcases hpair with ⟨rfl, rfl⟩ | ⟨rfl, rfl⟩
    · exact hother
    · exact hname
  have hplain : ∀ t ∈ before.map plain, ¬ name <:+: t := by
    intro t ht
    obtain ⟨u, hu, rfl⟩ := List.mem_map.mp ht
    exact not_infix_plain hpair (hbefore u hu)
  have hsame : List.Forall₂ SameParameter (before.map plain ++ s :: after)
      (censorSegs (before.map plain ++ s :: after)) := by
    refine (h _ ?_ ?_).2
    · intro t ht
      rw [List.mem_append, List.mem_map] at ht
      rcases ht with ⟨u, hu, rfl⟩ | ht
      · exact plain_free (hfree u (List.mem_append_left _ hu))
      · exact hfree t (List.mem_append_right _ ht)
    · refine List.rel_append ?_ (List.forall₂_same.mpr fun t _ => Or.inl rfl)
      rw [List.forall₂_map_right_iff]
      exact List.forall₂_same.mpr fun t _ => sameParameter_plain t
  obtain ⟨front, t, back, hfirst, hfront, ht⟩ := forall₂_append_cons (maskFirst_of_hidden hsame)
  obtain rfl := ht hid hcode
  rcases hpair with ⟨rfl, rfl⟩ | ⟨rfl, rfl⟩
  · -- the first search masks the parameter, which is as it was afterwards
    apply stars_of_masked hcut
    rw [maskFirst_append_of_free hplain, maskFirst, hcut] at hfirst
    exact (List.cons.inj (List.append_inj hfirst (hfront.length_eq)).2).1
  · -- the first search writes no name, so the second one comes to the parameter
    apply stars_of_masked hcut
    have hfree₁ : ∀ u ∈ front, ¬ appCodeName <:+: u := by
      intro u hu hwithin
      obtain ⟨k, v, k', hk, hstars, -⟩ := forall₂_append_cons
        (maskFirst_stars appIdName (before.map plain ++ t :: after))
      rw [hfirst] at hk
      obtain ⟨rfl, -⟩ := List.append_inj hk (hfront.length_eq.symm.trans hstars.length_eq)
      obtain ⟨w, hw, hwu⟩ := exists_of_forall₂ hstars.flip hu
      exact hplain w hw (Stars.infix_of hwu isName_appCode.star hwithin)
    have hsecond : censorSegs (before.map plain ++ t :: after) =
        front ++ (head ++ appCodeName ++ List.replicate tail.length '*') :: back := by
      rw [censorSegs, hfirst, maskFirst_append_of_free hfree₁, maskFirst, hcut]
    rw [hsecond] at hsame
    obtain ⟨k, u, k', hk, hlength, htu⟩ := forall₂_append_cons hsame
    obtain ⟨-, hcons⟩ := List.append_inj hk (hfront.length_eq.symm.trans hlength.length_eq)
    rw [(List.cons.inj hcons).1]
    rcases htu.kinds with ⟨a, b, -, rfl, -⟩ | ⟨a, b, -, rfl, -⟩ | ⟨-, -, heq⟩
    · exact absurd (List.prefix_append _ _) hid
    · exact absurd (List.prefix_append _ _) hcode
    · exact heq

theorem safe_of_hidden {segs : List (List Char)} (hfree : ∀ s ∈ segs, '&' ∉ s)
    (h : HiddenSegs segs) : Safe segs where
  appId := ⟨value_appId_of_hidden hfree h, rest_of_hidden hfree h (Or.inl ⟨rfl, rfl⟩)⟩
  appCode := ⟨value_appCode_of_hidden hfree h, rest_of_hidden hfree h (Or.inr ⟨rfl, rfl⟩)⟩
  noRoom := noRoom_of_hidden hfree h

/-! ## URLs -/

theorem DifferInValues.forall₂ {u v front front' : List Char} {segs segs' : List (List Char)}
    (h : DifferInValues u v) (hu : IsQuery u front segs) (hv : IsQuery v front' segs') :
    List.Forall₂ SameParameter segs segs' := by
  rcases h with rfl | ⟨front₁, segs₁, segs₂, h₁, h₂, hsame⟩
  · rw [(hu.unique hv).2]
    exact List.forall₂_same.mpr fun s _ => Or.inl rfl
  · rw [(hu.unique h₁).2, (hv.unique h₂).2]
    exact hsame

theorem hiddenSegs_of_hidden {u front : List Char} {segs : List (List Char)}
    (hu : IsQuery u front segs) (h : Hidden u) : HiddenSegs segs := by
  intro segs' hfree hsame
  have hne : segs' ≠ [] := by
    rintro rfl
    exact hu.segs_ne (List.forall₂_nil_right_iff.mp hsame)
  have hv : IsQuery (front ++ '?' :: ['&'].intercalate segs') front segs' :=
    ⟨hu.front_free, hne, hfree, rfl⟩
  obtain ⟨heq, hdiffer⟩ := h _ (Or.inr ⟨front, segs, segs', hu, hv, hsame⟩)
  refine ⟨?_, hdiffer.forall₂ hv (censor_query hv)⟩
  have hcensor := censor_query hv
  rw [heq] at hcensor
  exact (hcensor.unique (censor_query hu)).2

theorem hidden_of_hiddenSegs {u front : List Char} {segs : List (List Char)}
    (hu : IsQuery u front segs) (h : HiddenSegs segs) : Hidden u := by
  intro v hdiffer
  have hv : ∃ segs', IsQuery v front segs' := by
    rcases hdiffer with rfl | ⟨front', segs₁, segs', h₁, h₂, -⟩
    · exact ⟨segs, hu⟩
    · rw [← (hu.unique h₁).1] at h₂
      exact ⟨segs', h₂⟩
  obtain ⟨segs', hv⟩ := hv
  obtain ⟨heq, hsame⟩ := h segs' hv.segs_free (hdiffer.forall₂ hu hv)
  refine ⟨?_, Or.inr ⟨front, segs', _, hv, censor_query hv, hsame⟩⟩
  rw [(censor_query hv).eq, (censor_query hu).eq, heq]

/-- **When credentials stay out of the log.** The URLs that differ from a URL in the values of
its credentials only are all censored to one text, which is otherwise the same, iff both
searches come to the values that they are about.
SOURCE: Credentials.cpp:23-66 -/
theorem hidden_iff (u : List Char) :
    Hidden u ↔ ∀ front segs, IsQuery u front segs → Safe segs := by
  constructor
  · intro h front segs hu
    exact safe_of_hidden hu.segs_free (hiddenSegs_of_hidden hu h)
  · intro h
    by_cases hquestion : '?' ∈ u
    · obtain ⟨front, segs, hu⟩ := exists_isQuery hquestion
      exact hidden_of_hiddenSegs hu (hiddenSegs_of_safe (h front segs hu))
    · intro v hdiffer
      rcases hdiffer with rfl | ⟨front, segs, segs', hu, -, -⟩
      · exact ⟨rfl, Or.inl (censor_of_no_query hquestion).symm⟩
      · exact absurd hu.mem hquestion

/-- The value of a parameter that is repeated is logged. -/
theorem repeated_app_id_logged :
    ¬ Hidden "h?app_id=a&app_id=b".toList ∧
      censorCredentialsInUrl "h?app_id=a&app_id=b".toList = "h?app_id=*&app_id=b".toList := by
  refine ⟨?_, rfl⟩
  intro h
  have hu : IsQuery "h?app_id=a&app_id=b".toList ['h'] ["app_id=a".toList, "app_id=b".toList] :=
    ⟨by decide, by decide, by decide, rfl⟩
  have hv : IsQuery "h?app_id=a&app_id=c".toList ['h'] ["app_id=a".toList, "app_id=c".toList] :=
    ⟨by decide, by decide, by decide, rfl⟩
  have hsame : SameParameter "app_id=b".toList "app_id=c".toList :=
    Or.inr ⟨appIdName, List.mem_cons_self, ['b'], ['c'], rfl, rfl, rfl⟩
  obtain ⟨heq, -⟩ := h _ (Or.inr ⟨_, _, _, hu, hv,
    List.Forall₂.cons (Or.inl rfl) (List.Forall₂.cons hsame List.Forall₂.nil)⟩)
  exact absurd heq (by decide)

end OlpEdgeSdk.Analysis.CensoredUrls

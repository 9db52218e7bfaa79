import Mathlib.Data.List.DropRight
import OlpEdgeSdk.Model.FilterGroup

/-!
# The lines of a log filter file

A line is trimmed at both ends (`trim_eq_strip`) and is then ignored, or sets the level of a
tag, or is no line of the format. `loadLine` tells these apart by searches of its own
(`loadLine_of_ignored`, `loadLine_of_sets`, `loadLine_eq_none`); what it takes from the buffer
ends at the first null.
-/

set_option autoImplicit false

namespace OlpEdgeSdk.Analysis.FilterLines

open OlpEdgeSdk.Base OlpEdgeSdk.Model FilterGroup

/-! ## The format -/

/-- A character that does not count at the ends of a text. -/
def isBlank (c : Char) : Bool := whitespace.contains c

/-- A text without the blanks at its ends. -/
def strip (text : List Char) : List Char := (text.dropWhile isBlank).rdropWhile isBlank

/-- The name of a level. -/
def levelName : Level → String
  | .trace => "trace"
  | .debug => "debug"
  | .info => "info"
  | .warning => "warning"
  | .error => "error"
  | .fatal => "fatal"
  | .off => "off"

/-- The text is the name of the level, in whatever case. -/
def NamesLevel (text : List Char) (level : Level) : Prop :=
  text.map Char.toLower = (levelName level).toList

/-- A line that is blank or a comment. -/
def Ignored (line : List Char) : Prop := strip line = [] ∨ (strip line).head? = some '#'

/-- A line that sets the level of a tag; the empty tag stands for the default level. -/
def Sets (line tag : List Char) (level : Level) : Prop :=
  ¬ Ignored line ∧ ∃ before after, strip line = before ++ ':' :: after ∧ ':' ∉ before ∧
    tag = strip before ∧ NamesLevel (strip after) level

/-- A line of the format. -/
def WellFormed (line : List Char) : Prop := Ignored line ∨ ∃ tag level, Sets line tag level

/-! ## The ends of a text -/

section Ends

variable {text : List Char}

/-- **`trim`** removes the blanks at both ends. -/
theorem trim_eq_strip (text : List Char) : trim text = strip text := by
  unfold trim strip
  cases hfind : text.findIdx? fun c => !whitespace.contains c with
  | none =>
    rw [List.findIdx?_eq_none_iff] at hfind
    have hblank : text.dropWhile isBlank = [] := by
      rw [List.dropWhile_eq_nil_iff]
      intro c hc
      have hc' := hfind c hc
      rwa [Bool.not_eq_false'] at hc'
    rw [hblank]
    rfl
  | some first =>
    obtain ⟨hlt, hfirst⟩ := List.findIdx?_eq_some_iff_findIdx_eq.mp hfind
    have hdrop : text.dropWhile isBlank = text.drop first := by
      rw [List.dropWhile_eq_drop_findIdx_not, ← hfirst]
      rfl
    -- the last character that is not blank is behind the first one
    have hinside : (text.drop first).reverse.findIdx (fun c => !whitespace.contains c) <
        (text.drop first).reverse.length := by
      rw [List.findIdx_lt_length]
      refine ⟨text[first], ?_, ?_⟩
      · rw [List.mem_reverse, List.drop_eq_getElem_cons hlt]
        exact List.mem_cons_self
      · subst hfirst
        exact @List.findIdx_getElem Char (fun c => !whitespace.contains c) text hlt
    have hlast : text.reverse.findIdx (fun c => !whitespace.contains c) =
        (text.drop first).reverse.findIdx (fun c => !whitespace.contains c) := by
      conv_lhs => rw [← List.take_append_drop first text, List.reverse_append]
      rw [List.findIdx_append, if_pos hinside]
    have hstrip : (text.drop first).rdropWhile isBlank = (text.drop first).take
        ((text.drop first).length -
          (text.drop first).reverse.findIdx (fun c => !whitespace.contains c)) := by
      rw [List.rdropWhile, List.dropWhile_eq_drop_findIdx_not, List.reverse_drop,
        List.reverse_reverse, List.length_reverse]
      rfl
    rw [hdrop, hstrip]
    dsimp only
    unfold findLastNotOf
    rw [hlast]
    rw [List.length_reverse, List.length_drop] at hinside
    rw [List.length_drop]
    congr 1
    omega

theorem strip_sublist (text : List Char) : (strip text).Sublist text :=
  (List.rdropWhile_prefix isBlank _).sublist.trans (List.dropWhile_sublist isBlank)

end Ends

/-! ## The null and the colon -/

theorem cString_of_notMem {text : List Char} (h : Char.ofNat 0 ∉ text) : cString text = text := by
  rw [cString, List.takeWhile_eq_self_iff]
  intro c hc
  apply decide_eq_true
  rintro rfl
  exact h hc

theorem notMem_cString (buffer : List Char) : Char.ofNat 0 ∉ cString buffer := by
  intro hmem
  have hne := List.mem_takeWhile_imp hmem
  rw [decide_eq_true_eq] at hne
  exact hne rfl

theorem findIdx?_of_notMem {text : List Char} {c : Char} (h : c ∉ text) :
    text.findIdx? (· = c) = none := by
  rw [List.findIdx?_eq_none_iff]
  intro x hx
  apply decide_eq_false
  rintro rfl
  exact h hx

theorem split_of_notMem {text : List Char} {c : Char} (h : c ∉ text) :
    split text c = (text, []) := by
  rw [split, findIdx?_of_notMem h]

theorem split_append {before after : List Char} {c : Char} (h : c ∉ before) :
    split (before ++ c :: after) c = (before, after) := by
  have hfind : (before ++ c :: after).findIdx? (· = c) = some before.length := by
    rw [List.findIdx?_append, findIdx?_of_notMem h, List.findIdx?_cons, decide_eq_true rfl,
      if_pos rfl, Option.map_some, Nat.zero_add]
    rfl
  rw [split, hfind]
  dsimp only
  rw [List.take_left, ← List.drop_drop, List.drop_left]
  rfl

/-! ## The names of the levels -/

theorem equalsIgnoreCase_levelName (text : List Char) (level : Level) :
    equalsIgnoreCase text (levelName level).toList = true ↔ NamesLevel (cString text) level := by
  have hname : (cString (levelName level).toList).map Char.toLower = (levelName level).toList := by
    cases level
    all_goals decide
  rw [equalsIgnoreCase, hname, decide_eq_true_eq]
  rfl

theorem NamesLevel.unique {text : List Char} {level level' : Level} (h : NamesLevel text level)
    (h' : NamesLevel text level') : level = level' := by
  have hnames : (levelName level).toList = (levelName level').toList := h.symm.trans h'
  cases level
  all_goals
    cases level'
    all_goals
      first
      | rfl
      | exact absurd hnames (by decide)

/-- The comparisons of `stringToLevel` find the level that they hold for. -/
theorem stringToLevel_eq {text : List Char} {found : Option Level}
    (h : ∀ level, equalsIgnoreCase text (levelName level).toList = decide (found = some level)) :
    stringToLevel text = found := by
  have htrace := h .trace
  have hdebug := h .debug
  have hinfo := h .info
  have hwarning := h .warning
  have herror := h .error
  have hfatal := h .fatal
  have hoff := h .off
  simp only [levelName] at htrace hdebug hinfo hwarning herror hfatal hoff
  unfold stringToLevel
  rw [htrace, hdebug, hinfo, hwarning, herror, hfatal, hoff]
  cases found with
  | none => rfl
  | some level =>
    cases level
    all_goals rfl

/-- **`stringToLevel`** knows the names of the levels. -/
theorem stringToLevel_iff (text : List Char) (level : Level) :
    stringToLevel text = some level ↔ NamesLevel (cString text) level := by
  by_cases hnamed : ∃ level, NamesLevel (cString text) level
  · obtain ⟨named, hnamed⟩ := hnamed
    have hfound : stringToLevel text = some named := by
      apply stringToLevel_eq
      intro other
      rw [Bool.eq_iff_iff, equalsIgnoreCase_levelName, decide_eq_true_eq, Option.some.injEq]
      constructor
      · intro hother
        exact hnamed.unique hother
      · rintro rfl
        exact hnamed
    rw [hfound, Option.some.injEq]
    constructor
    · rintro rfl
      exact hnamed
    · intro hlevel
      exact hnamed.unique hlevel
  · have hnone : stringToLevel text = none := by
      apply stringToLevel_eq
      intro other
      rw [Bool.eq_iff_iff, equalsIgnoreCase_levelName, decide_eq_true_eq]
      constructor
      · intro hother
        exact absurd ⟨other, hother⟩ hnamed
      · rintro ⟨⟩
    rw [hnone]
    constructor
    · rintro ⟨⟩
    · intro hlevel
      exact absurd ⟨level, hlevel⟩ hnamed

/-! ## What a line does -/

section Lines

variable {group : FilterGroup} {buffer tag : List Char} {level : Level}

/-- The group with the level of a tag, the empty one for the default. -/
def assign (group : FilterGroup) (tag : List Char) (level : Level) : FilterGroup :=
  if tag.isEmpty then { group with defaultLevel := some level }
  else { group with tagLevels := Assoc.put group.tagLevels tag level }

/-- The level of a tag, the empty one for the default. -/
def levelOf (group : FilterGroup) (tag : List Char) : Option Level :=
  if tag = [] then group.defaultLevel else getLevel group tag

theorem levelOf_clear (tag : List Char) : levelOf clear tag = none := by
  unfold levelOf
  split
  · rfl
  · rfl

theorem levelOf_assign (group : FilterGroup) (tag other : List Char) (level : Level) :
    levelOf (assign group tag level) other =
      if tag = other then some level else levelOf group other := by
  unfold assign levelOf
  cases tag with
  | nil =>
    cases other with
    | nil => rfl
    | cons c other => rfl
  | cons c tag =>
    cases other with
    | nil => rfl
    | cons d other => exact Assoc.valueOf_put group.tagLevels (c :: tag) level (d :: other)

theorem ignored_iff {line : List Char} : Ignored line ↔
    ((trim line).isEmpty || decide ((trim line).head? = some '#')) = true := by
  rw [Ignored, trim_eq_strip, Bool.or_eq_true, List.isEmpty_iff, decide_eq_true_eq]

theorem loadLine_of_ignored (h : Ignored (cString buffer)) :
    loadLine group buffer = some group := by
  unfold loadLine
  dsimp only
  exact if_pos (ignored_iff.mp h)

theorem loadLine_of_not_ignored (h : ¬ Ignored (cString buffer)) :
    loadLine group buffer =
      (stringToLevel (strip (split (strip (cString buffer)) ':').2)).map
        (assign group (strip (split (strip (cString buffer)) ':').1)) := by
  unfold loadLine
  dsimp only
  rw [if_neg (fun hline => h (ignored_iff.mpr hline)), trim_eq_strip, trim_eq_strip, trim_eq_strip]
  cases stringToLevel (strip (split (strip (cString buffer)) ':').2) with
  | none => rfl
  | some level =>
    dsimp only
    rw [Option.map_some, assign]
    split
    · rfl
    · rfl

/-- The text behind the colon of a line names a level as it stands. -/
theorem stringToLevel_strip_iff {before after : List Char}
    (h : strip (cString buffer) = before ++ ':' :: after) :
    stringToLevel (strip after) = some level ↔ NamesLevel (strip after) level := by
  have hnull : Char.ofNat 0 ∉ strip after := by
    intro hmem
    apply notMem_cString buffer
    apply (strip_sublist _).subset
    rw [h]
    exact List.mem_append_right before (List.mem_cons_of_mem _ ((strip_sublist _).subset hmem))
  rw [stringToLevel_iff, cString_of_notMem hnull]

/-- **A line that sets a level** assigns it. -/
theorem loadLine_of_sets (h : Sets (cString buffer) tag level) :
    loadLine group buffer = some (assign group tag level) := by
  obtain ⟨hnot, before, after, hline, hbefore, rfl, hname⟩ := h
  rw [loadLine_of_not_ignored hnot, hline, split_append hbefore]
  rw [(stringToLevel_strip_iff hline).mpr hname]
  rfl

/-- A line that is not of the format ends the loading. -/
theorem loadLine_eq_none (h : ¬ WellFormed (cString buffer)) : loadLine group buffer = none := by
  have hnot : ¬ Ignored (cString buffer) := fun hignored => h (Or.inl hignored)
  rw [loadLine_of_not_ignored hnot, Option.map_eq_none_iff]
  by_cases hcolon : ':' ∈ strip (cString buffer)
  · obtain ⟨before, after, hline, hbefore⟩ := List.eq_append_cons_of_mem hcolon
    rw [hline, split_append hbefore, ← Option.not_isSome_iff_eq_none, Option.isSome_iff_exists]
    rintro ⟨level, hlevel⟩
    have hname := (stringToLevel_strip_iff hline).mp hlevel
    exact h (Or.inr ⟨_, level, hnot, before, after, hline, hbefore, rfl, hname⟩)
  · rw [split_of_notMem hcolon]
    rfl

/-- A line sets one level of one tag. -/
theorem Sets.unique {line tag' : List Char} {level' : Level} (h : Sets line tag level)
    (h' : Sets line tag' level') : tag = tag' ∧ level = level' := by
  obtain ⟨-, before, after, hline, hbefore, rfl, hname⟩ := h
  obtain ⟨-, before', after', hline', hbefore', rfl, hname'⟩ := h'
  have hparts : split (before ++ ':' :: after) ':' = (before, after) := split_append hbefore
  rw [← hline, hline', split_append hbefore', Prod.mk.injEq] at hparts
  obtain ⟨rfl, rfl⟩ := hparts
  exact ⟨rfl, hname.unique hname'⟩

end Lines

end OlpEdgeSdk.Analysis.FilterLines

import OlpEdgeSdk.Analysis.FilterLines
import OlpEdgeSdk.Base.LastWrites

/-!
# Loading a log filter file

`load` takes the lines of a text one by one, and as many as fit its buffer: a line of 1024
characters or more ends its loop as the end of the text does (`load_eq`). The lines read decide
on the result, and their last settings are the levels (`process_spec`). What follows such a
line is neither checked nor applied.
-/

set_option autoImplicit false

namespace OlpEdgeSdk.Analysis.FilterFiles

open OlpEdgeSdk.Base OlpEdgeSdk.Model FilterGroup FilterLines

/-! ## What is read of a text -/

/-- The lines of a text. -/
def textLines (text : List Char) : List (List Char) := text.splitOn '\n'

/-- A line that fits the buffer with its null. -/
def fits (line : List Char) : Bool := line.length < bufferSize

/-- What the body of the loop makes of lines. -/
def process : FilterGroup → List (List Char) → Bool × FilterGroup
  | group, [] => (true, group)
  | group, line :: lines =>
    match loadLine group line with
    | none => (false, group)
    | some group => process group lines

section Reading

variable {line rest : List Char}

/-- What is left of a text behind a line: nothing, or the end of the line and more. -/
def EndsLine (rest : List Char) : Prop := rest = [] ∨ ∃ more, rest = '\n' :: more

theorem takeWhile_line (hline : '\n' ∉ line) (hrest : EndsLine rest) :
    (line ++ rest).takeWhile (· ≠ '\n') = line := by
  have hall : ∀ c ∈ line, decide (c ≠ '\n') = true := by
    intro c hc
    apply decide_eq_true
    rintro rfl
    exact hline hc
  rw [List.takeWhile_append_of_pos hall]
  rcases hrest with rfl | ⟨more, rfl⟩
  · exact List.append_nil line
  · exact List.append_nil line

/-- A line that fits is read with its end. -/
theorem getline_line (hline : '\n' ∉ line) (hfits : fits line = true) :
    getline bufferSize ⟨line ++ '\n' :: rest, false, false⟩ = (line, ⟨rest, false, false⟩) := by
  have hlength : line.length ≤ bufferSize - 1 := Nat.le_pred_of_lt (of_decide_eq_true hfits)
  unfold getline
  dsimp only
  rw [takeWhile_line hline (Or.inr ⟨rest, rfl⟩), List.take_of_length_le hlength,
    List.drop_left]
  rfl

/-- The last line is read up to the end of the text; the flag for a failure says that there is
none. -/
theorem getline_last (hline : '\n' ∉ line) (hfits : fits line = true) :
    getline bufferSize ⟨line, false, false⟩ = (line, ⟨[], true, line.isEmpty⟩) := by
  have hlength : line.length ≤ bufferSize - 1 := Nat.le_pred_of_lt (of_decide_eq_true hfits)
  have hwhole := takeWhile_line hline (Or.inl rfl)
  rw [List.append_nil] at hwhole
  unfold getline
  dsimp only
  rw [hwhole, List.take_of_length_le hlength, List.drop_length]
  rfl

/-- A line that does not fit sets the flag for a failure: the buffer is full in front of a
character that does not end the line. -/
theorem getline_overflow (hline : '\n' ∉ line) (hlong : fits line = false)
    (hrest : EndsLine rest) :
    (getline bufferSize ⟨line ++ rest, false, false⟩).2.fail = true := by
  have hlt : bufferSize - 1 < line.length := by
    have hle : bufferSize ≤ line.length := Nat.not_lt.mp (of_decide_eq_false hlong)
    exact Nat.lt_of_lt_of_le (by decide) hle
  obtain ⟨c, cs, hcut⟩ : ∃ c cs, line.drop (bufferSize - 1) = c :: cs := by
    apply List.exists_cons_of_ne_nil
    intro hnil
    exact Nat.not_le_of_lt hlt (List.drop_eq_nil_iff.mp hnil)
  have hnext : (line ++ rest).drop (line.take (bufferSize - 1)).length = c :: (cs ++ rest) := by
    rw [List.length_take_of_le (Nat.le_of_lt hlt), List.drop_append_of_le_length
      (Nat.le_of_lt hlt), hcut]
    rfl
  have hother : c ≠ '\n' := by
    rintro rfl
    apply hline
    apply List.mem_of_mem_drop
    rw [hcut]
    exact List.mem_cons_self
  unfold getline
  dsimp only
  rw [takeWhile_line hline hrest, hnext]
  dsimp only
  rw [if_neg hother]
  rfl

theorem getline_eof (chars : List Char) (fail : Bool) :
    (getline bufferSize ⟨chars, true, fail⟩).2.fail = true := rfl

end Reading

theorem loadLoop_of_fail {fuel : ℕ} {stream : Stream} {group : FilterGroup}
    (h : (getline bufferSize stream).2.fail = true) :
    loadLoop (fuel + 1) stream group = some (true, group) := by
  unfold loadLoop
  exact if_pos h

theorem loadLoop_of_line {fuel : ℕ} {stream stream' : Stream} {line : List Char}
    {group : FilterGroup} (h : getline bufferSize stream = (line, stream'))
    (hgood : stream'.fail = false) :
    loadLoop (fuel + 1) stream group =
      match loadLine group line with
      | none => some (false, group)
      | some group => loadLoop fuel stream' group := by
  rw [loadLoop, h]
  dsimp only
  rw [hgood]
  rfl

/-- **Run.** `load` reads the lines up to the first one that does not fit. -/
theorem loadLoop_eq {fuel : ℕ} {text : List Char} (h : text.length + 2 ≤ fuel)
    (group : FilterGroup) : loadLoop fuel ⟨text, false, false⟩ group =
      some (process group ((textLines text).takeWhile fits)) := by
  induction fuel generalizing text group with
  | zero => omega
  | succ fuel ih =>
    by_cases hend : '\n' ∈ text
    · obtain ⟨line, rest, rfl, hline⟩ := List.eq_append_cons_of_mem hend
      have hlines : textLines (line ++ '\n' :: rest) = line :: textLines rest :=
        List.splitOn_append_cons_self_of_not_mem hline rest
      rw [hlines, List.takeWhile_cons]
      cases hfits : fits line with
      | true =>
        rw [loadLoop_of_line (getline_line hline hfits) rfl]
        show _ = some (process group (line :: (textLines rest).takeWhile fits))
        rw [process]
        cases loadLine group line with
        | none => rfl
        | some group' =>
          apply ih
          rw [List.length_append, List.length_cons] at h
          omega
      | false =>
        rw [loadLoop_of_fail (getline_overflow hline hfits (Or.inr ⟨rest, rfl⟩))]
        rfl
    · have hlines : textLines text = [text] := List.splitOn_eq_singleton hend
      rw [hlines, List.takeWhile_cons]
      cases hfits : fits text with
      | true =>
        show _ = some (process group [text])
        cases text with
        | nil => rw [loadLoop_of_fail (by rfl), process, loadLine_of_ignored (Or.inl rfl)]; rfl
        | cons c text =>
          rw [loadLoop_of_line (getline_last hend hfits) rfl, process]
          cases loadLine group (c :: text) with
          | none => rfl
          | some group' =>
            -- the flag for the end of the text is set, so that the next turn reads nothing
            obtain ⟨fuel, rfl⟩ : ∃ n, fuel = n + 1 := ⟨fuel - 1, by omega⟩
            exact loadLoop_of_fail (getline_eof [] false)
      | false =>
        have hoverflow := getline_overflow hend hfits (Or.inl rfl)
        rw [List.append_nil] at hoverflow
        rw [loadLoop_of_fail hoverflow]
        rfl

/-- **`load`** makes of a text what its lines make up to the first one that does not fit. -/
theorem load_eq {fuel : ℕ} {text : List Char} (h : text.length + 2 ≤ fuel) :
    load fuel text = some (process clear ((textLines text).takeWhile fits)) :=
  loadLoop_eq h clear

/-! ## What lines make -/

section Lines

variable {lines : List (List Char)}

/-- All lines are of the format. -/
def AllWellFormed (lines : List (List Char)) : Prop := ∀ line ∈ lines, WellFormed line

/-- What is left of a group by a line of the format. -/
def applied (group : FilterGroup) (line : List Char) : FilterGroup :=
  (loadLine group line).getD group

/-- **Step.** A line of the format sets what it says, and nothing else. -/
theorem levelOf_applied_iff (group : FilterGroup) (buffer tag : List Char) (level : Level) :
    levelOf (applied group buffer) tag = some level ↔
      Sets (cString buffer) tag level ∨
        ((∀ other, ¬ Sets (cString buffer) tag other) ∧ levelOf group tag = some level) := by
  unfold applied
  by_cases hsets : ∃ tag level, Sets (cString buffer) tag level
  · obtain ⟨tag', level', hsets⟩ := hsets
    rw [loadLine_of_sets hsets, Option.getD_some, levelOf_assign]
    by_cases htag : tag' = tag
    · subst htag
      rw [if_pos rfl, Option.some.injEq]
      constructor
      · rintro rfl
        exact Or.inl hsets
      · rintro (hlevel | ⟨hnone, -⟩)
        · exact (hsets.unique hlevel).2
        · exact absurd hsets (hnone level')
    · have hother : ∀ other, ¬ Sets (cString buffer) tag other := by
        intro other hlevel
        exact htag (hsets.unique hlevel).1
      rw [if_neg htag]
      constructor
      · intro hgroup
        exact Or.inr ⟨hother, hgroup⟩
      · rintro (hlevel | ⟨-, hgroup⟩)
        · exact absurd hlevel (hother level)
        · exact hgroup
  · have hother : ∀ other, ¬ Sets (cString buffer) tag other := by
      intro other hlevel
      exact hsets ⟨tag, other, hlevel⟩
    have hsame : (loadLine group buffer).getD group = group := by
      by_cases hignored : Ignored (cString buffer)
      · rw [loadLine_of_ignored hignored, Option.getD_some]
      · rw [loadLine_eq_none, Option.getD_none]
        rintro (hline | hline)
        · exact hignored hline
        · exact hsets hline
    rw [hsame]
    constructor
    · intro hgroup
      exact Or.inr ⟨hother, hgroup⟩
    · rintro (hlevel | ⟨-, hgroup⟩)
      · exact absurd hlevel (hother level)
      · exact hgroup

/-- A line is taken if it is of the format. -/
theorem loadLine_isSome_iff {group : FilterGroup} {buffer : List Char} :
    (loadLine group buffer).isSome ↔ WellFormed (cString buffer) := by
  constructor
  · intro hsome
    by_contra hnot
    rw [loadLine_eq_none hnot] at hsome
    cases hsome
  · rintro (hignored | ⟨tag, level, hsets⟩)
    · rw [loadLine_of_ignored hignored]
      rfl
    · rw [loadLine_of_sets hsets]
      rfl

/-- **Run.** Lines are taken if all are of the format, and have then all been applied. -/
theorem process_eq (group : FilterGroup) (buffers : List (List Char)) :
    ((process group buffers).1 = true ↔ AllWellFormed (buffers.map cString)) ∧
      ((process group buffers).1 = true →
        (process group buffers).2 = buffers.foldl applied group) := by
  induction buffers generalizing group with
  | nil => exact ⟨iff_of_true rfl (List.forall_mem_nil _), fun _ => rfl⟩
  | cons buffer buffers ih =>
    have hline : (loadLine group buffer).isSome ↔ WellFormed (cString buffer) :=
      loadLine_isSome_iff
    rw [List.map_cons, AllWellFormed, List.forall_mem_cons, List.foldl_cons, applied, process]
    cases hload : loadLine group buffer with
    | none =>
      rw [hload] at hline
      refine ⟨iff_of_false Bool.false_ne_true ?_, ?_⟩
      · rintro ⟨hwell, -⟩
        exact absurd (hline.mpr hwell) Bool.false_ne_true
      · rintro ⟨⟩
    | some group' =>
      rw [hload] at hline
      have hwell : WellFormed (cString buffer) := hline.mp rfl
      obtain ⟨hall, hfoldl⟩ := ih group'
      refine ⟨hall.trans ?_, hfoldl⟩
      exact ⟨fun hrest => ⟨hwell, hrest⟩, And.right⟩

/-- **The levels of lines that were taken** are those of the last lines that set them. -/
theorem levelOf_process_iff {buffers : List (List Char)} (h : (process clear buffers).1 = true)
    (tag : List Char) (level : Level) :
    levelOf (process clear buffers).2 tag = some level ↔
      LastWrite Sets (buffers.map cString) tag level := by
  have hread : levelOf (buffers.foldl applied clear) tag = some level ↔
      LastWrite (fun buffer => Sets (cString buffer)) buffers tag level ∨
        (Untouched (fun buffer => Sets (cString buffer)) buffers tag ∧
          levelOf clear tag = some level) := read_foldl_iff levelOf_applied_iff clear
  rw [(process_eq clear buffers).2 h, hread, lastWrite_map_iff, levelOf_clear]
  constructor
  · rintro (hlast | ⟨-, ⟨⟩⟩)
    exact hlast
  · exact Or.inl

end Lines

/-! ## The whole text -/

/-- The result tells whether all lines of the text are of the format, and has then the levels of
the last lines that set them. -/
def Exact (text : List Char) (result : Bool × FilterGroup) : Prop :=
  (result.1 = true ↔ AllWellFormed (textLines text)) ∧
    (result.1 = true → ∀ tag level, levelOf result.2 tag = some level ↔
      LastWrite Sets (textLines text) tag level)

/-- `load` ends with an exact result. -/
def LoadsExactly (text : List Char) : Prop :=
  ∃ result, (∀ fuel, text.length + 2 ≤ fuel → load fuel text = some result) ∧ Exact text result

/-- Two lists of lines are of the format both or neither, and set the same levels. -/
def SameMeaning (lines lines' : List (List Char)) : Prop :=
  (AllWellFormed lines ↔ AllWellFormed lines') ∧
    (AllWellFormed lines → ∀ tag level,
      LastWrite Sets lines tag level ↔ LastWrite Sets lines' tag level)

/-- `load` is exact if what it reads means what the text does. -/
theorem loadsExactly_iff_sameMeaning (text : List Char) : LoadsExactly text ↔
    SameMeaning (((textLines text).takeWhile fits).map cString) (textLines text) := by
  have hload : ∀ fuel, text.length + 2 ≤ fuel →
      load fuel text = some (process clear ((textLines text).takeWhile fits)) := by
    intro fuel hfuel
    exact load_eq hfuel
  obtain ⟨htaken, -⟩ := process_eq clear ((textLines text).takeWhile fits)
  constructor
  · rintro ⟨result, hresult, hall, hlevels⟩
    have hsame := (hload _ le_rfl).symm.trans (hresult _ le_rfl)
    rw [Option.some.injEq] at hsame
    rw [← hsame] at hall hlevels
    refine ⟨htaken.symm.trans hall, ?_⟩
    intro hwell tag level
    have htrue := htaken.mpr hwell
    rw [← hlevels htrue, levelOf_process_iff htrue]
  · rintro ⟨hall, hlevels⟩
    refine ⟨_, hload, htaken.trans hall, ?_⟩
    intro htrue tag level
    rw [levelOf_process_iff htrue]
    exact hlevels (htaken.mp htrue) tag level

/-- Lines behind others do not matter: one of the others is not of the format, or the lines
behind are and set no level to another one than it has. -/
theorem sameMeaning_append_iff (lines more : List (List Char)) :
    SameMeaning lines (lines ++ more) ↔
      (∃ line ∈ lines, ¬ WellFormed line) ∨
        (AllWellFormed more ∧ ∀ tag level, LastWrite Sets more tag level →
          LastWrite Sets lines tag level) := by
  have happend : AllWellFormed (lines ++ more) ↔ AllWellFormed lines ∧ AllWellFormed more :=
    List.forall_mem_append
  by_cases hlines : AllWellFormed lines
  · have hgood : ¬ ∃ line ∈ lines, ¬ WellFormed line := by
      rintro ⟨line, hline, hbad⟩
      exact hbad (hlines line hline)
    rw [or_iff_right hgood]
    constructor
    · rintro ⟨hall, hlevels⟩
      refine ⟨(happend.mp (hall.mp hlines)).2, ?_⟩
      intro tag level hlast
      exact (hlevels hlines tag level).mpr (lastWrite_append_iff.mpr (Or.inl hlast))
    · rintro ⟨hmore, hagree⟩
      refine ⟨iff_of_true hlines (happend.mpr ⟨hlines, hmore⟩), ?_⟩
      intro _ tag level
      rw [lastWrite_append_iff]
      constructor
      · intro hlast
        by_cases huntouched : Untouched Sets more tag
        · exact Or.inr ⟨huntouched, hlast⟩
        · -- the level set last behind is that of the lines before
          obtain ⟨level', hlast'⟩ := exists_lastWrite huntouched
          have hone : level = level' := LastWrite.unique
            (fun _ _ _ _ hsets hsets' => (hsets.unique hsets').2) hlast (hagree tag level' hlast')
          exact Or.inl (hone ▸ hlast')
      · rintro (hlast | ⟨-, hlast⟩)
        · exact hagree tag level hlast
        · exact hlast
  · have hbad : ∃ line ∈ lines, ¬ WellFormed line := by
      simpa only [AllWellFormed, not_forall, exists_prop] using hlines
    refine iff_of_true ⟨?_, ?_⟩ (Or.inl hbad)
    · rw [happend]
      exact iff_of_false hlines fun hboth => hlines hboth.1
    · intro hwell
      exact absurd hwell hlines

theorem subset_of_mem_textLines {text line : List Char} (h : line ∈ textLines text) :
    line ⊆ text := by
  induction text generalizing line with
  | nil =>
    rw [textLines, List.splitOn_nil, List.mem_singleton] at h
    rw [h]
    exact List.nil_subset _
  | cons c text ih =>
    rw [textLines, List.splitOn_cons_eq_if_modifyHead] at h
    split at h
    · rcases List.mem_cons.mp h with rfl | hrest
      · exact List.nil_subset _
      · exact List.subset_cons_of_subset c (ih hrest)
    · obtain ⟨first, lines, hlines⟩ := List.exists_cons_of_ne_nil (List.splitOn_ne_nil '\n' text)
      have hfirst : first ∈ textLines text := by
        rw [textLines, hlines]
        exact List.mem_cons_self
      rw [hlines, List.modifyHead_cons] at h
      rcases List.mem_cons.mp h with rfl | hrest
      · exact List.cons_subset_cons c (ih hfirst)
      · apply List.subset_cons_of_subset c (ih _)
        rw [textLines, hlines]
        exact List.mem_cons_of_mem first hrest

/-- A text without a null is read as it stands. -/
theorem map_cString_textLines {text : List Char} (h : Char.ofNat 0 ∉ text)
    {lines : List (List Char)} (hlines : lines ⊆ textLines text) : lines.map cString = lines := by
  have hsame : ∀ line ∈ lines, cString line = id line := by
    intro line hline
    apply cString_of_notMem
    intro hnull
    exact h (subset_of_mem_textLines (hlines hline) hnull)
  rw [List.map_congr_left hsame, List.map_id]

/-- **`load` accepts the texts of the format**, with the levels of the last lines that set them,
exactly if what it reads means what the text does. For a text without a null: if a line in front
of the first one that does not fit the buffer is not of the format, or if that line and those
behind it are and set no level to another one than it has. -/
theorem load_exact_iff (text : List Char) :
    (LoadsExactly text ↔
      SameMeaning (((textLines text).takeWhile fits).map cString) (textLines text)) ∧
    (Char.ofNat 0 ∉ text →
      (LoadsExactly text ↔
        (∃ line ∈ (textLines text).takeWhile fits, ¬ WellFormed line) ∨
          (AllWellFormed ((textLines text).dropWhile fits) ∧
            ∀ tag level, LastWrite Sets ((textLines text).dropWhile fits) tag level →
              LastWrite Sets ((textLines text).takeWhile fits) tag level))) := by
  have hmeaning := loadsExactly_iff_sameMeaning text
  refine ⟨hmeaning, ?_⟩
  intro hnull
  rw [map_cString_textLines hnull (List.takeWhile_sublist fits).subset] at hmeaning
  rw [hmeaning, ← sameMeaning_append_iff, List.takeWhile_append_dropWhile]

/-- A blank line of 1024 characters ends the loading: the level set behind it is lost. -/
theorem not_loadsExactly :
    ¬ (∀ text, LoadsExactly text) ∧
      textLines (List.replicate 1024 ' ' ++ '\n' :: ": info".toList) =
        [List.replicate 1024 ' ', ": info".toList] ∧
      AllWellFormed [List.replicate 1024 ' ', ": info".toList] := by
  have hblank : strip (List.replicate 1024 ' ') = [] := by
    have hdrop : (List.replicate 1024 ' ').dropWhile isBlank = [] := by
      rw [List.dropWhile_eq_nil_iff]
      intro c hc
      rw [List.eq_of_mem_replicate hc]
      rfl
    rw [strip, hdrop]
    rfl
  have hlines : textLines (List.replicate 1024 ' ' ++ '\n' :: ": info".toList) =
      [List.replicate 1024 ' ', ": info".toList] := by
    have hfirst : '\n' ∉ List.replicate 1024 ' ' := by
      intro hmem
      exact absurd (List.eq_of_mem_replicate hmem) (by decide)
    rw [textLines, List.splitOn_append_cons_self_of_not_mem hfirst,
      List.splitOn_eq_singleton (by decide)]
  have hsets : Sets ": info".toList [] .info :=
    ⟨by unfold Ignored; decide, [], " info".toList, by decide, by decide, rfl, by
      unfold NamesLevel; decide⟩
  have hlong : fits (List.replicate 1024 ' ') = false := by
    apply decide_eq_false
    rw [List.length_replicate]
    exact lt_irrefl 1024
  refine ⟨?_, hlines, ?_⟩
  · intro h
    obtain ⟨-, hlevels⟩ := (loadsExactly_iff_sameMeaning _).mp (h _)
    rw [hlines, List.takeWhile_cons, hlong] at hlevels
    have hlast : LastWrite Sets [List.replicate 1024 ' ', ": info".toList] [] .info :=
      ⟨[List.replicate 1024 ' '], ": info".toList, [], rfl, hsets, untouched_nil⟩
    exact not_lastWrite_nil ((hlevels (List.forall_mem_nil _) [] .info).mpr hlast)
  · intro line hline
    rcases List.mem_cons.mp hline with rfl | hrest
    · exact Or.inl (Or.inl hblank)
    · rw [List.mem_singleton.mp hrest]
      exact Or.inr ⟨[], .info, hsets⟩

end OlpEdgeSdk.Analysis.FilterFiles

import Mathlib.Data.Char
import OlpEdgeSdk.Model.NetworkCurlHandle

/-!
# Which header lines the client takes

The unsigned differences of `NetworkUtils` do not wrap while the offset is inside the line and
the line is no shorter than what is looked for; its loops then read characters of the line
alone. In `HeaderFunction` this follows from the place of the colon, and every fixed position
with it. What is left are the two conversions to numbers, which throw.
-/

set_option autoImplicit false

namespace OlpEdgeSdk.Analysis.HeaderLines

open OlpEdgeSdk.Base OlpEdgeSdk.Model NetworkUtils NetworkCurl

/-! ## The comparisons -/

/-- The text stands in the string at an offset, in whatever case. -/
def hasAt (str : List Char) (offset : ℕ) (text : List Char) : Bool :=
  ((str.drop offset).take text.length).map simpleToUpper = text.map simpleToUpper

theorem charAt_of_lt {str : List Char} {i : ℕ} (h : i < str.length) :
    charAt str i = .ok str[i] := by
  unfold charAt
  rw [List.getElem?_eq_getElem h]

theorem charAt_length (str : List Char) : charAt str str.length = .ok (Char.ofNat 0) := by
  unfold charAt
  rw [List.getElem?_eq_none (le_refl _)]
  simp

theorem hasAt_cons {str : List Char} {i : ℕ} (h : i < str.length) (c : Char) (text : List Char) :
    hasAt str i (c :: text) =
      (decide (simpleToUpper str[i] = simpleToUpper c) && hasAt str (i + 1) text) := by
  unfold hasAt
  rw [List.drop_eq_getElem_cons h, List.length_cons, List.take_succ_cons, List.map_cons,
    List.map_cons, Bool.eq_iff_iff]
  simp

theorem length_le_of_hasAt {str text : List Char} {offset : ℕ} (h : hasAt str offset text = true) :
    text.length ≤ str.length - offset := by
  unfold hasAt at h
  have hlength := congrArg List.length (of_decide_eq_true h)
  simp only [List.length_map, List.length_take, List.length_drop] at hlength
  omega

theorem startsWithLoop_eq {str text : List Char} {i : ℕ} (h : i + text.length ≤ str.length) :
    startsWithLoop str i text = .ok (hasAt str i text) := by
  induction text generalizing i with
  | nil => simp [startsWithLoop, hasAt]
  | cons c text ih =>
    rw [List.length_cons] at h
    have hlt : i < str.length := by omega
    unfold startsWithLoop
    rw [charAt_of_lt hlt, hasAt_cons hlt, ih (by omega)]
    by_cases heq : simpleToUpper str[i] = simpleToUpper c
    · simp [heq, bind, Except.bind]
    · simp [heq, bind, Except.bind, pure, Except.pure]

/-- **`CaseInsensitiveStartsWith`** inside a string. -/
theorem caseInsensitiveStartsWith_eq {str : List Char} {offset : ℕ} (h : offset ≤ str.length)
    (text : List Char) :
    caseInsensitiveStartsWith str text offset = .ok (hasAt str offset text) := by
  unfold caseInsensitiveStartsWith sizeSub
  rw [if_pos h]
  split
  · next hshort =>
    cases hfound : hasAt str offset text with
    | false => rfl
    | true =>
      have := length_le_of_hasAt hfound
      omega
  · apply startsWithLoop_eq
    omega

/-- The loop of the search finds the first place in its range. -/
theorem findLoop_eq {str text : List Char} (hne : text ≠ []) {turns offset : ℕ}
    (h : 0 < turns → offset + turns + text.length ≤ str.length) :
    findLoop str text turns offset =
      .ok ((List.range' offset turns).find? fun i => hasAt str i text) := by
  induction turns generalizing offset with
  | zero => rfl
  | succ turns ih =>
    have hbound := h (by omega)
    have hlt : offset < str.length := by omega
    obtain ⟨c, rest, rfl⟩ := List.exists_cons_of_ne_nil hne
    unfold findLoop
    rw [charAt_of_lt hlt, charAt_of_lt (show 0 < (c :: rest).length by simp),
      caseInsensitiveStartsWith_eq (by omega), ih (by omega), List.range'_succ,
      List.find?_cons, hasAt_cons hlt]
    by_cases heq : simpleToUpper str[offset] = simpleToUpper c
    · cases hrest : hasAt str (offset + 1) rest with
      | true => simp [heq, bind, Except.bind, pure, Except.pure]
      | false => simp [heq, bind, Except.bind]
    · simp [heq, bind, Except.bind]

/-- The places at which `CaseInsensitiveFind` looks: not the last one at which the text would
fit. -/
def findAt (str text : List Char) (offset : ℕ) : Option ℕ :=
  (List.range' offset (str.length - text.length - offset)).find? fun i => hasAt str i text

/-- **`CaseInsensitiveFind`** of a text that the string has room for. -/
theorem caseInsensitiveFind_eq {str text : List Char} (hne : text ≠ [])
    (h : text.length ≤ str.length) (offset : ℕ) :
    caseInsensitiveFind str text offset = .ok (findAt str text offset) := by
  unfold caseInsensitiveFind sizeSub
  rw [if_pos h]
  apply findLoop_eq hne
  omega

theorem findAt_bounds {str text : List Char} {offset i : ℕ} (h : findAt str text offset = some i) :
    i + text.length < str.length := by
  have hmem := List.mem_of_find?_eq_some h
  rw [List.mem_range'_1] at hmem
  omega

/-! ## The colon -/

theorem simpleToUpper_eq_colon {c : Char} : simpleToUpper c = ':' ↔ c = ':' := by
  unfold simpleToUpper
  split
  · next h =>
    obtain ⟨hlow, hhigh⟩ := h
    have hlow' : 97 ≤ c.toNat := hlow
    have hhigh' : c.toNat ≤ 122 := hhigh
    have hletters : ∀ n < 26, Char.ofNat (n + 65) ≠ ':' := by decide
    constructor
    · intro heq
      exact absurd heq (hletters (c.toNat - 97) (by omega))
    · rintro rfl
      exact absurd hlow (by decide)
  · exact Iff.rfl

/-- A line that starts with a name and a colon has its first colon there. -/
theorem findIdx?_of_hasAt {str name : List Char} {k : ℕ} (h : hasAt str 0 name = true)
    (hname : (name.map simpleToUpper).findIdx? (· = ':') = some k) :
    str.findIdx? (· = ':') = some k := by
  have hcolon : (fun c : Char => decide (simpleToUpper c = ':')) = fun c => decide (c = ':') := by
    funext c
    rw [Bool.eq_iff_iff, decide_eq_true_eq, decide_eq_true_eq]
    exact simpleToUpper_eq_colon
  have hmap : (str.map simpleToUpper).findIdx? (· = ':') = str.findIdx? (· = ':') := by
    rw [List.findIdx?_map]
    show str.findIdx? (fun c => decide (simpleToUpper c = ':')) = _
    rw [hcolon]
  unfold hasAt at h
  rw [List.drop_zero] at h
  rw [← hmap, ← List.take_append_drop name.length str, List.map_append, of_decide_eq_true h,
    List.findIdx?_append, hname]
  rfl

/-- Two names at the start of one line end at the same colon. -/
theorem not_hasAt_of_colon {str name : List Char} {pos k : ℕ}
    (hpos : str.findIdx? (· = ':') = some pos)
    (hname : (name.map simpleToUpper).findIdx? (· = ':') = some k) (hne : pos ≠ k) :
    hasAt str 0 name = false := by
  cases hfound : hasAt str 0 name with
  | false => rfl
  | true =>
    have := findIdx?_of_hasAt hfound hname
    rw [hpos, Option.some.injEq] at this
    exact absurd this hne

/-- Where the names of the fields have their colons. -/
theorem colon_date : ("Date:".toList.map simpleToUpper).findIdx? (· = ':') = some 4 := by
  decide

theorem colon_cacheControl :
    ("Cache-Control:".toList.map simpleToUpper).findIdx? (· = ':') = some 13 := by decide

theorem colon_expires :
    ("Expires:".toList.map simpleToUpper).findIdx? (· = ':') = some 7 := by decide

theorem colon_eTag : ("ETag:".toList.map simpleToUpper).findIdx? (· = ':') = some 4 := by
  decide

theorem colon_contentType :
    ("Content-Type:".toList.map simpleToUpper).findIdx? (· = ':') = some 12 := by decide

theorem colon_contentRange :
    ("Content-Range:".toList.map simpleToUpper).findIdx? (· = ':') = some 13 := by decide

/-- Two names of one length at one place are the same but for the case. -/
theorem map_eq_of_hasAt {str text other : List Char} {offset : ℕ}
    (h : hasAt str offset text = true) (hother : hasAt str offset other = true)
    (hlength : text.length = other.length) :
    text.map simpleToUpper = other.map simpleToUpper := by
  unfold hasAt at h hother
  rw [hlength] at h
  exact (of_decide_eq_true h).symm.trans (of_decide_eq_true hother)

theorem not_contentRange_of_cacheControl {str : List Char}
    (h : hasAt str 0 "Cache-Control:".toList = true) :
    hasAt str 0 "Content-Range:".toList = false := by
  cases hfound : hasAt str 0 "Content-Range:".toList with
  | false => rfl
  | true => exact absurd (map_eq_of_hasAt h hfound (by decide)) (by decide)

theorem length_maxAge : "max-age=".toList.length = 8 := by decide

theorem length_bytes : "bytes ".toList.length = 6 := by decide

/-! ## The fields -/

/-- The numbers of a line can be read: the age of a `Cache-Control` line that has one, and the
offset of a `Content-Range` line that starts with a digit. -/
def NumbersFit (str : List Char) : Prop :=
  (hasAt str 0 "Cache-Control:".toList = true → ∀ index,
    findAt str "max-age=".toList 8 = some index → ∃ n, stoi (str.drop (index + 8)) = .ok n) ∧
  (hasAt str 0 "Content-Range:".toList = true → hasAt str 15 "bytes ".toList = true →
    ∀ first, str[21]? = some first → '0' ≤ first ∧ first ≤ '9' →
      ∃ n, stoll (str.drop 21) = .ok n)

theorem substr_of_le {str : List Char} {pos : ℕ} (h : pos ≤ str.length) :
    substr str pos = .ok (str.drop pos) := by
  unfold substr
  rw [if_pos h]

/-- The range is told by characters up to the terminating null. -/
theorem isRangeOut_ok {str : List Char} (h : 21 ≤ str.length) :
    ∃ b, isRangeOut str = .ok b ∧ (b = true → str[21]? = some '*') := by
  unfold isRangeOut
  by_cases hend : str.length = 21
  · rw [← hend, charAt_length]
    exact ⟨false, by rfl, by rintro ⟨⟩⟩
  · have hlt : 21 < str.length := by omega
    rw [charAt_of_lt hlt]
    by_cases hstar : str[21] = '*'
    · by_cases hend' : str.length = 22
      · rw [show charAt str 22 = .ok (Char.ofNat 0) from hend' ▸ charAt_length str]
        refine ⟨false, ?_, by rintro ⟨⟩⟩
        simp only [bind, Except.bind, pure, Except.pure, hstar]
        rfl
      · have hlt' : 22 < str.length := by omega
        rw [charAt_of_lt hlt']
        refine ⟨decide (str[22] = '/'), ?_, ?_⟩
        · simp [bind, Except.bind, pure, Except.pure, hstar]
        · intro _
          rw [List.getElem?_eq_getElem hlt, hstar]
    · refine ⟨false, ?_, by rintro ⟨⟩⟩
      simp [bind, Except.bind, pure, Except.pure, hstar]

/-- **A `Content-Range` line** is taken if the offset it may have can be read. -/
theorem contentRange_ok_iff {str : List Char} (h : 15 ≤ str.length) (handle : RequestHandle) :
    (∃ handle', contentRange str handle = .ok handle') ↔
      (hasAt str 15 "bytes ".toList = true → ∀ first, str[21]? = some first →
        '0' ≤ first ∧ first ≤ '9' → ∃ n, stoll (str.drop 21) = .ok n) := by
  unfold contentRange
  rw [caseInsensitiveStartsWith_eq h]
  cases hbytes : hasAt str 15 "bytes ".toList with
  | false =>
    constructor
    · rintro - ⟨⟩
    · intro _
      exact ⟨handle, rfl⟩
  | true =>
    have hlength : 21 ≤ str.length := by
      have := length_le_of_hasAt hbytes
      rw [length_bytes] at this
      omega
    obtain ⟨b, hb, hstar⟩ := isRangeOut_ok hlength
    simp only [bind, Except.bind, hb, if_true, forall_true_left]
    cases b with
    | true =>
      constructor
      · rintro - first hfirst ⟨hlow, -⟩
        rw [hstar rfl, Option.some.injEq] at hfirst
        rw [← hfirst] at hlow
        exact absurd hlow (by decide)
      · intro _
        exact ⟨_, rfl⟩
    | false =>
      by_cases hend : str.length = 21
      · have hnull : charAt str 21 = .ok (Char.ofNat 0) := hend ▸ charAt_length str
        rw [hnull]
        constructor
        · rintro - first hfirst
          rw [List.getElem?_eq_none hend.le] at hfirst
          cases hfirst
        · intro _
          exact ⟨handle, rfl⟩
      · have hlt : 21 < str.length := by omega
        rw [charAt_of_lt hlt, List.getElem?_eq_getElem hlt, substr_of_le hlength]
        simp only [Bool.false_eq_true, if_false, Option.some.injEq, forall_eq']
        by_cases hdigit : '0' ≤ str[21] ∧ str[21] ≤ '9'
        · rw [if_pos hdigit]
          cases hnumber : stoll (str.drop 21) with
          | error fault => simp [hdigit]
          | ok n => simp [pure, Except.pure]
        · rw [if_neg hdigit]
          constructor
          · rintro - hyes
            exact absurd hyes hdigit
          · intro _
            exact ⟨handle, rfl⟩

/-- A field that is copied from a fixed position on, which the colon leaves room for. -/
theorem exists_copied {str : List Char} {pos : ℕ} (h : pos ≤ str.length)
    (set : List Char → RequestHandle) :
    ∃ handle', (do let text ← substr str pos; return set text : Except StringFault RequestHandle) =
      .ok handle' := by
  rw [substr_of_le h]
  exact ⟨_, rfl⟩

/-- **The field of a header line** is set if the numbers of the line can be read. The colon is
that of the name, so the line has the room that the fixed positions need. -/
theorem headerField_ok_iff (curlGetdate : List Char → ℤ) {str : List Char} {pos : ℕ}
    (hpos : str.findIdx? (· = ':') = some pos) (hlength : pos + 2 < str.length)
    (handle : RequestHandle) :
    (∃ handle', headerField curlGetdate str handle = .ok handle') ↔ NumbersFit str := by
  have hstart : ∀ text, caseInsensitiveStartsWith str text 0 = .ok (hasAt str 0 text) :=
    caseInsensitiveStartsWith_eq (Nat.zero_le _)
  have hplace : ∀ {name : List Char} {k : ℕ}, hasAt str 0 name = true →
      (name.map simpleToUpper).findIdx? (· = ':') = some k → pos = k := by
    intro name k hname hk
    have := findIdx?_of_hasAt hname hk
    rwa [hpos, Option.some.injEq] at this
  -- a line with another colon than that of `Cache-Control` and `Content-Range` has no numbers
  have hother : pos ≠ 13 → NumbersFit str := by
    intro hne
    have hcache := not_hasAt_of_colon hpos colon_cacheControl hne
    have hrange := not_hasAt_of_colon hpos colon_contentRange hne
    refine ⟨?_, ?_⟩
    · rw [hcache]
      rintro ⟨⟩
    · rw [hrange]
      rintro ⟨⟩
  unfold headerField
  simp only [hstart, bind, Except.bind]
  cases hdate : hasAt str 0 "Date:".toList with
  | true =>
    have hfour := hplace hdate colon_date
    simp only [if_true]
    exact iff_of_true (exists_copied (by omega) fun date => { handle with date := date })
      (hother (by omega))
  | false =>
    simp only [Bool.false_eq_true, if_false]
    cases hcache : hasAt str 0 "Cache-Control:".toList with
    | true =>
      have hthirteen := hplace hcache colon_cacheControl
      have hrange := not_contentRange_of_cacheControl hcache
      have hfind : caseInsensitiveFind str "max-age=".toList 8 =
          .ok (findAt str "max-age=".toList 8) := by
        apply caseInsensitiveFind_eq
        · decide
        · rw [length_maxAge]
          omega
      unfold NumbersFit
      simp only [if_true, hfind, hcache, hrange, forall_true_left, Bool.false_eq_true,
        false_implies, and_true]
      cases hage : findAt str "max-age=".toList 8 with
      | none =>
        exact iff_of_true ⟨handle, rfl⟩ (by rintro index ⟨⟩)
      | some index =>
        have hbounds := findAt_bounds hage
        rw [length_maxAge] at hbounds
        simp only [substr_of_le (show index + 8 ≤ str.length by omega), Option.some.injEq,
          forall_eq']
        cases hnumber : stoi (str.drop (index + 8)) with
        | error fault => simp
        | ok n => simp [pure, Except.pure]
    | false =>
      simp only [Bool.false_eq_true, if_false]
      cases hexpires : hasAt str 0 "Expires:".toList with
      | true =>
        have hseven := hplace hexpires colon_expires
        simp only [if_true]
        exact iff_of_true (exists_copied (by omega) _) (hother (by omega))
      | false =>
        simp only [Bool.false_eq_true, if_false]
        cases hetag : hasAt str 0 "ETag:".toList with
        | true =>
          have hfour := hplace hetag colon_eTag
          simp only [if_true]
          exact iff_of_true (exists_copied (by omega) _) (hother (by omega))
        | false =>
          simp only [Bool.false_eq_true, if_false]
          cases htype : hasAt str 0 "Content-Type:".toList with
          | true =>
            have htwelve := hplace htype colon_contentType
            simp only [if_true]
            exact iff_of_true (exists_copied (by omega) _) (hother (by omega))
          | false =>
            simp only [Bool.false_eq_true, if_false]
            cases hrange : hasAt str 0 "Content-Range:".toList with
            | true =>
              have hthirteen := hplace hrange colon_contentRange
              simp only [if_true]
              rw [contentRange_ok_iff (by omega)]
              unfold NumbersFit
              simp only [hcache, hrange, Bool.false_eq_true, false_implies, true_and,
                forall_true_left]
            | false =>
              simp only [Bool.false_eq_true, if_false]
              refine iff_of_true ⟨handle, rfl⟩ ⟨?_, ?_⟩
              · rw [hcache]
                rintro ⟨⟩
              · rw [hrange]
                rintro ⟨⟩

/-! ## The lines -/

/-- What is left of a line without the line ends behind it. -/
def trimmed (ptr : List Char) : List Char := ptr.take (headerCount ptr ptr.length)

/-- A line with nothing behind the colon has no numbers. -/
theorem numbersFit_of_short {str : List Char}
    (h : ∀ pos, str.findIdx? (· = ':') = some pos → str.length ≤ pos + 2) : NumbersFit str := by
  refine ⟨?_, ?_⟩
  · intro hcache index hindex
    have hlength := h 13 (findIdx?_of_hasAt hcache colon_cacheControl)
    have hmem := List.mem_of_find?_eq_some hindex
    rw [List.mem_range'_1, length_maxAge] at hmem
    omega
  · intro hrange hbytes
    have hlength := h 13 (findIdx?_of_hasAt hrange colon_contentRange)
    have := length_le_of_hasAt hbytes
    rw [length_bytes] at this
    omega

/-- A line without its line ends. -/
theorem headerLine_ok_iff (curlGetdate : List Char → ℤ) (str : List Char)
    (handle : RequestHandle) :
    (∃ handle', headerLine curlGetdate str handle = .ok handle') ↔ NumbersFit str := by
  unfold headerLine
  cases hpos : str.findIdx? (· = ':') with
  | none =>
    refine iff_of_true ⟨handle, rfl⟩ (numbersFit_of_short ?_)
    intro pos hsome
    rw [hpos] at hsome
    cases hsome
  | some pos =>
    dsimp only
    by_cases hshort : str.length ≤ pos + 2
    · rw [if_pos hshort]
      refine iff_of_true ⟨handle, rfl⟩ (numbersFit_of_short ?_)
      intro other hother
      rw [hpos, Option.some.injEq] at hother
      rw [← hother]
      exact hshort
    · rw [if_neg hshort, substr_of_le (by omega)]
      rw [not_le] at hshort
      exact headerField_ok_iff curlGetdate hpos hshort _

/-- **Which header lines the client takes.** For every line the function returns its full
length, with no read past the terminating null and no exception, exactly if the line is
ignored, since the client is not started or the request cancelled, or the numbers in it can be
read. -/
theorem headerFunction_ok_iff (curlGetdate : List Char → ℤ) (isStarted : Bool) (ptr : List Char)
    (handle : RequestHandle) :
    (∃ handle', headerFunction curlGetdate isStarted ptr handle = .ok (ptr.length, handle')) ↔
      isStarted = false ∨ handle.cancelled = true ∨ NumbersFit (trimmed ptr) := by
  unfold headerFunction
  by_cases hidle : (!isStarted || handle.cancelled) = true
  · rw [if_pos hidle]
    refine iff_of_true ⟨handle, rfl⟩ ?_
    rw [Bool.or_eq_true, Bool.not_eq_true'] at hidle
    rcases hidle with h | h
    · exact Or.inl h
    · exact Or.inr (Or.inl h)
  · rw [if_neg hidle]
    rw [Bool.or_eq_true, Bool.not_eq_true', not_or] at hidle
    obtain ⟨hstarted, hcancelled⟩ := hidle
    rw [or_iff_right hstarted, or_iff_right hcancelled]
    by_cases hcount : headerCount ptr ptr.length = 0
    · rw [if_pos hcount]
      refine iff_of_true ⟨handle, rfl⟩ (numbersFit_of_short ?_)
      unfold trimmed
      rw [hcount]
      rintro pos ⟨⟩
    · rw [if_neg hcount, ← headerLine_ok_iff curlGetdate (trimmed ptr) handle]
      show (∃ handle', (do
        let handle ← headerLine curlGetdate (trimmed ptr) handle
        return (ptr.length, handle) : Except StringFault (ℕ × RequestHandle)) = _) ↔ _
      cases hline : headerLine curlGetdate (trimmed ptr) handle with
      | error fault =>
        constructor
        · rintro ⟨handle', ⟨⟩⟩
        · rintro ⟨handle', ⟨⟩⟩
      | ok handle' => exact iff_of_true ⟨handle', rfl⟩ ⟨handle', rfl⟩

/-- An age that is no number, and an offset that no integer type holds: both end the transfer
with an exception. -/
theorem headerFunction_throws :
    (∀ handle', headerFunction (fun _ => 0) true "Cache-Control: max-age=none".toList
        RequestHandle.new ≠ .ok (27, handle')) ∧
      ∀ handle', headerFunction (fun _ => 0) true
        "Content-Range: bytes 99999999999999999999-".toList RequestHandle.new ≠
          .ok (42, handle') := by
  have hage : headerFunction (fun _ => 0) true "Cache-Control: max-age=none".toList
      RequestHandle.new = .error .invalidArgument := by rfl
  have hoffset : headerFunction (fun _ => 0) true
      "Content-Range: bytes 99999999999999999999-".toList RequestHandle.new =
        .error .outOfRange := by rfl
  rw [hage, hoffset]
  exact ⟨by rintro handle' ⟨⟩, by rintro handle' ⟨⟩⟩

end OlpEdgeSdk.Analysis.HeaderLines

import OlpEdgeSdk.Model.Url

/-!
# Percent coding is undone

`decoded` says what decoding a string is: a well-formed group stands for its byte, a plus sign
for a space, and anything else for itself. The loop of the decoder computes it one turn at a
time and reads nothing behind the terminating null (`decodeTurn_spec`): the test for a group
takes two from the length, which wraps for a string of one byte, but the null that it then
comes to is no digit.

The place in the string is kept in an `unsigned int`. It does not reach the end of a string of
`2^32` bytes or more, and then the loop goes on for ever (`not_decodes`); the encoder counts in
a `size_t`.
-/

set_option autoImplicit false

namespace OlpEdgeSdk.Analysis.UrlCoding

open OlpEdgeSdk.Base OlpEdgeSdk.Model OlpEdgeSdk.Model.Url
open OlpEdgeSdk.Model.NetworkUtils (sizeSub)

/-! ## What decoding is -/

/-- The byte of two hexadecimal digits. -/
def groupByte (high low : BitVec 8) : BitVec 8 :=
  BitVec.ofNat 8 (16 * (hexValue? high).getD 0 + (hexValue? low).getD 0)

/-- A byte outside of the groups. -/
def plainByte (c : BitVec 8) : BitVec 8 := if c = charByte '+' then charByte ' ' else c

/-- A string begins with a percent sign and two hexadecimal digits. -/
def beginsGroup : List (BitVec 8) → Bool
  | c :: high :: low :: _ => c = charByte '%' ∧ isHexDigit high ∧ isHexDigit low
  | _ => false

/-- The well-formed groups from left to right, and the bytes between them. -/
def decoded : List (BitVec 8) → List (BitVec 8)
  | [] => []
  | [c] => [plainByte c]
  | [c, d] => [plainByte c, plainByte d]
  | c :: high :: low :: rest =>
    if beginsGroup (c :: high :: low :: rest) then groupByte high low :: decoded rest
    else plainByte c :: decoded (high :: low :: rest)

theorem decoded_of_not_beginsGroup {c : BitVec 8} {rest : List (BitVec 8)}
    (h : beginsGroup (c :: rest) = false) : decoded (c :: rest) = plainByte c :: decoded rest := by
  match rest with
  | [] => rfl
  | [_] => rfl
  | high :: low :: rest => rw [decoded, if_neg (by simp [h])]

theorem decoded_of_beginsGroup {c high low : BitVec 8} {rest : List (BitVec 8)}
    (h : beginsGroup (c :: high :: low :: rest) = true) :
    decoded (c :: high :: low :: rest) = groupByte high low :: decoded rest := by
  rw [decoded, if_pos h]

/-- A group has three bytes. -/
theorem exists_of_beginsGroup {rest : List (BitVec 8)} (h : beginsGroup rest = true) :
    ∃ c high low rest', rest = c :: high :: low :: rest' ∧ c = charByte '%' ∧
      isHexDigit high = true ∧ isHexDigit low = true := by
  match rest, h with
  | c :: high :: low :: rest, h =>
    rw [beginsGroup, decide_eq_true_eq] at h
    exact ⟨c, high, low, rest, rfl, h⟩

/-! ## Reads -/

theorem byteAt_append (done : List (BitVec 8)) {rest : List (BitVec 8)} {i : ℕ}
    {c : BitVec 8} (h : rest[i]? = some c) : byteAt (done ++ rest) (done.length + i) = .ok c := by
  unfold byteAt
  rw [List.getElem?_append_right (Nat.le_add_right _ _), Nat.add_sub_cancel_left, h]

theorem byteAt_length (input : List (BitVec 8)) : byteAt input input.length = .ok 0 := by
  simp [byteAt]

theorem byteAt_of_le {input : List (BitVec 8)} {i : ℕ} (h : i ≤ input.length) :
    ∃ c, byteAt input i = .ok c := by
  rcases Nat.lt_or_ge i input.length with hlt | hge
  · exact ⟨input[i], by simp [byteAt, List.getElem?_eq_getElem hlt]⟩
  · obtain rfl : i = input.length := by omega
    exact ⟨0, byteAt_length input⟩

/-! ## Turns -/

/-- The place after the next one, as long as it does not wrap. -/
theorem incremented_of_lt {i : ℕ} (h : i + 1 < 4294967296) : incremented i = i + 1 :=
  Nat.mod_eq_of_lt h

theorem incremented_lt (i : ℕ) : incremented i < 4294967296 := Nat.mod_lt _ (by decide)

theorem hexToUint_pair {high low : BitVec 8} (hhigh : isHexDigit high = true)
    (hlow : isHexDigit low = true) :
    hexToUint [high, low, 0] = 16 * (hexValue? high).getD 0 + (hexValue? low).getD 0 := by
  have hnull : isHexDigit 0 = false := by decide
  have hdigits : [high, low, 0].takeWhile isHexDigit = [high, low] := by
    rw [List.takeWhile_cons_of_pos hhigh, List.takeWhile_cons_of_pos hlow,
      List.takeWhile_cons_of_neg (by rw [hnull]; exact Bool.false_ne_true)]
  rw [hexToUint, hdigits]
  simp

/-- **The test for a group** looks at the three bytes that come next; where there are fewer it
fails. -/
theorem startsGroup_append (done : List (BitVec 8)) {rest : List (BitVec 8)} (hrest : rest ≠ [])
    (hlength : (done ++ rest).length < 4294967296) :
    startsGroup (done ++ rest) done.length = .ok (beginsGroup rest) := by
  have hnull : isHexDigit 0 = false := by decide
  rw [List.length_append] at hlength
  unfold startsGroup
  match rest, hrest, hlength with
  | [c], _, hlength =>
    have hc : byteAt (done ++ [c]) done.length = .ok c := byteAt_append done (i := 0) rfl
    have hend : byteAt (done ++ [c]) (done.length + 1) = .ok 0 := by
      simpa using byteAt_length (done ++ [c])
    have hidx : incremented done.length = done.length + 1 := by
      apply incremented_of_lt
      exact hlength
    split
    · simp only [hc, hidx, hend, bind, Except.bind, pure, Except.pure, hnull]
      split
      · rfl
      · rfl
    · rfl
  | [c, d], _, _ =>
    rw [if_neg]
    · rfl
    · simp [sizeSub]
  | c :: high :: low :: rest, _, hlength =>
    have hc : byteAt (done ++ c :: high :: low :: rest) done.length = .ok c :=
      byteAt_append done (i := 0) rfl
    have hhigh : byteAt (done ++ c :: high :: low :: rest) (done.length + 1) = .ok high :=
      byteAt_append done (i := 1) rfl
    have hlow : byteAt (done ++ c :: high :: low :: rest) (done.length + 1 + 1) = .ok low :=
      byteAt_append done (i := 2) rfl
    simp only [List.length_cons] at hlength
    have hinside : done.length < sizeSub (done ++ c :: high :: low :: rest).length 2 := by
      simp only [sizeSub, List.length_append, List.length_cons]
      rw [if_pos (by omega)]
      omega
    rw [if_pos hinside, incremented_of_lt (i := done.length) (by omega),
      incremented_of_lt (i := done.length + 1) (by omega)]
    simp only [hc, hhigh, hlow, bind, Except.bind, pure, Except.pure, beginsGroup]
    by_cases hpercent : c = charByte '%'
    · rw [if_pos hpercent]
      split
      · rename_i hdigit
        simp [hpercent, hdigit]
      · rename_i hdigit
        simp [hpercent, hdigit]
    · simp [hpercent]

/-- Where a run of the loop stands: what is written and what is left make up the result. -/
structure Standing (input : List (BitVec 8)) (s : DecodeState) : Prop where
  inside : s.readIdx ≤ input.length
  result : s.out ++ decoded (input.drop s.readIdx) = decoded input

/-- **Step.** A turn goes on, reads nothing behind the null and writes what the bytes that it
takes stand for. -/
theorem decodeTurn_spec {input : List (BitVec 8)} {s : DecodeState}
    (hlength : input.length < 4294967296) (hinside : s.readIdx < input.length)
    (hs : Standing input s) :
    ∃ s', decodeTurn input s = .ok s' ∧ Standing input s' ∧ s.readIdx < s'.readIdx := by
  obtain ⟨readIdx, out⟩ := s
  obtain ⟨done, rest, rfl, rfl⟩ :
      ∃ done rest, input = done ++ rest ∧ readIdx = done.length := by
    refine ⟨input.take readIdx, input.drop readIdx, (List.take_append_drop _ _).symm, ?_⟩
    rw [List.length_take, Nat.min_eq_left (Nat.le_of_lt hinside)]
  have hresult := hs.result
  simp only [List.drop_left] at hresult hinside
  have hne : rest ≠ [] := by
    rintro rfl
    simp at hinside
  unfold decodeTurn
  simp only [startsGroup_append done hne hlength, bind, Except.bind]
  rw [List.length_append] at hlength
  by_cases hgroup : beginsGroup rest = true
  · obtain ⟨c, high, low, rest, rfl, hpercent, hdigit, hdigit'⟩ := exists_of_beginsGroup hgroup
    have hhigh : byteAt (done ++ c :: high :: low :: rest) (done.length + 1) = .ok high :=
      byteAt_append done (i := 1) rfl
    have hlow : byteAt (done ++ c :: high :: low :: rest) (done.length + 1 + 1) = .ok low :=
      byteAt_append done (i := 2) rfl
    simp only [List.length_cons] at hlength
    rw [if_pos hgroup, incremented_of_lt (i := done.length) (by omega),
      incremented_of_lt (i := done.length + 1) (by omega),
      incremented_of_lt (i := done.length + 1 + 1) (by omega)]
    simp only [hhigh, hlow, pure, Except.pure, hexToUint_pair hdigit hdigit']
    refine ⟨_, rfl, ⟨?_, ?_⟩, ?_⟩
    · simp only [List.length_append, List.length_cons]
      omega
    · rw [← hresult, decoded_of_beginsGroup hgroup]
      have hdrop : (done ++ c :: high :: low :: rest).drop (done.length + 1 + 1 + 1) = rest := by
        rw [Nat.add_assoc, Nat.add_assoc, List.drop_length_add_append]
        rfl
      rw [hdrop, List.append_assoc]
      rfl
    · simp only
      omega
  · rw [if_neg hgroup]
    rw [Bool.not_eq_true] at hgroup
    match rest, hne, hlength with
    | c :: rest, _, hlength =>
      have hc : byteAt (done ++ c :: rest) done.length = .ok c := byteAt_append done (i := 0) rfl
      simp only [List.length_cons] at hlength
      rw [incremented_of_lt (i := done.length) (by omega)]
      simp only [hc, pure, Except.pure]
      refine ⟨⟨done.length + 1, out ++ [plainByte c]⟩, ?_, ⟨?_, ?_⟩, ?_⟩
      · unfold plainByte
        split
        · rfl
        · rfl
      · simp only [List.length_append, List.length_cons]
        omega
      · have hdrop : (done ++ c :: rest).drop (done.length + 1) = rest := by
          rw [List.drop_length_add_append]
          rfl
        rw [← hresult, decoded_of_not_beginsGroup hgroup, hdrop, List.append_assoc]
        rfl
      · simp only
        omega

/-! ## Runs of the decoder -/

/-- The decoder comes to its end, and what it has written is what the string stands for. -/
def DecodesGroups (input : List (BitVec 8)) : Prop :=
  ∃ fuel, decode input fuel = some (.ok (decoded input))

/-- The loop has not failed, and stands in the string. -/
def Stands (input : List (BitVec 8)) (r : Except StringFault DecodeState) : Prop :=
  ∃ s, r = .ok s ∧ Standing input s

/-- How much of the string is not read yet. -/
def unread (input : List (BitVec 8)) : Except StringFault DecodeState → ℕ
  | .ok s => input.length - s.readIdx
  | .error _ => 0

/-- **Step.** A turn on a string that the index can cover reads on. -/
theorem Stands.turn {input : List (BitVec 8)} {r : Except StringFault DecodeState}
    (hlength : input.length < 4294967296) (h : Stands input r)
    (hguard : decodeGuard input r = true) :
    Stands input (r.bind (decodeTurn input)) ∧
      unread input (r.bind (decodeTurn input)) < unread input r := by
  obtain ⟨s, rfl, hs⟩ := h
  have hinside : s.readIdx < input.length := by simpa [decodeGuard] using hguard
  obtain ⟨s', hturn, hs', hlt⟩ := decodeTurn_spec hlength hinside hs
  have hbound := hs'.inside
  simp only [Except.bind, hturn, unread]
  exact ⟨⟨s', rfl, hs'⟩, by omega⟩

/-- **Run.** The decoder of a string that the index can cover. -/
theorem decodesGroups_of_lt {input : List (BitVec 8)} (hlength : input.length < 4294967296) :
    DecodesGroups input := by
  have hstart : Stands input (.ok ⟨0, []⟩) := ⟨_, rfl, Nat.zero_le _, rfl⟩
  obtain ⟨_, hend, ⟨s, rfl, hs⟩, hguard⟩ := whileLoop_variant (decodeGuard input)
    (fun s => s.bind (decodeTurn input)) (unread input) (fun r h => h.turn hlength) hstart
  have hidx : input.length ≤ s.readIdx := by simpa [decodeGuard] using hguard
  have hresult := hs.result
  rw [List.drop_of_length_le hidx] at hresult
  have hout : s.out = decoded input := by simpa [decoded] using hresult
  refine ⟨input.length, ?_⟩
  unfold decode
  have hend : whileLoop (decodeGuard input) _ input.length (.ok ⟨0, []⟩) = some (.ok s) := hend
  rw [hend, ← hout]
  rfl

/-- A turn on a string that the index cannot leave. -/
theorem decodeTurn_of_le {input : List (BitVec 8)} {s : DecodeState}
    (hlength : 4294967296 ≤ input.length) (hs : s.readIdx < 4294967296) :
    ∃ s', decodeTurn input s = .ok s' ∧ s'.readIdx < 4294967296 := by
  have hread : ∀ {i : ℕ}, i < 4294967296 → ∃ c, byteAt input i = .ok c := by
    intro i hi
    apply byteAt_of_le
    omega
  obtain ⟨c, hc⟩ := hread hs
  obtain ⟨high, hhigh⟩ := hread (incremented_lt s.readIdx)
  obtain ⟨low, hlow⟩ := hread (incremented_lt (incremented s.readIdx))
  have hgroup : ∃ group, startsGroup input s.readIdx = .ok group := by
    simp only [startsGroup, hc, hhigh, hlow, bind, Except.bind, pure, Except.pure]
    split
    · split
      · split
        · exact ⟨_, rfl⟩
        · exact ⟨_, rfl⟩
      · exact ⟨_, rfl⟩
    · exact ⟨_, rfl⟩
  obtain ⟨group, hgroup⟩ := hgroup
  simp only [decodeTurn, hgroup, hc, hhigh, hlow, bind, Except.bind, pure, Except.pure]
  split
  · exact ⟨_, rfl, incremented_lt _⟩
  · split
    · exact ⟨_, rfl, incremented_lt _⟩
    · exact ⟨_, rfl, incremented_lt _⟩

/-- **The decoder of a longer string never comes to its end.** -/
theorem not_decodes {input : List (BitVec 8)} (hlength : 4294967296 ≤ input.length) (fuel : ℕ) :
    decode input fuel = none := by
  unfold decode
  rw [Option.map_eq_none_iff]
  by_contra hsome
  obtain ⟨r, hr⟩ := Option.ne_none_iff_exists'.mp hsome
  refine not_endsIn (fun r => ∃ s, r = .ok s ∧ s.readIdx < 4294967296) ?_ ?_
    ⟨_, rfl, by decide⟩ ⟨fuel, hr⟩
  · rintro _ ⟨s, rfl, hs⟩
    simp only [decodeGuard, decide_eq_true_eq]
    omega
  · rintro _ ⟨s, rfl, hs⟩
    obtain ⟨s', hturn, hs'⟩ := decodeTurn_of_le hlength hs
    exact ⟨s', hturn, hs'⟩

theorem decodesGroups_iff (input : List (BitVec 8)) :
    DecodesGroups input ↔ input.length < 4294967296 := by
  constructor
  · rintro ⟨fuel, hfuel⟩
    by_contra hlong
    rw [not_decodes (Nat.le_of_not_lt hlong)] at hfuel
    cases hfuel
  · exact decodesGroups_of_lt

/-! ## The encoder -/

/-- The characters that stay as they are: letters, digits and four signs. -/
def Unreserved (c : BitVec 8) : Prop :=
  (charByte 'a' ≤ c ∧ c ≤ charByte 'z') ∨ (charByte 'A' ≤ c ∧ c ≤ charByte 'Z') ∨
    (charByte '0' ≤ c ∧ c ≤ charByte '9') ∨ c = charByte '-' ∨ c = charByte '.' ∨
    c = charByte '_' ∨ c = charByte '~'

/-- A percent sign and two hexadecimal digits. -/
def IsGroup (piece : List (BitVec 8)) : Prop :=
  ∃ high low, piece = [charByte '%', high, low] ∧ isHexDigit high = true ∧ isHexDigit low = true

/-- A string of unreserved characters and groups. -/
def PercentEncoded (text : List (BitVec 8)) : Prop :=
  ∃ pieces : List (List (BitVec 8)), text = pieces.flatten ∧
    ∀ piece ∈ pieces, (∃ c, piece = [c] ∧ Unreserved c) ∨ IsGroup piece

theorem unreserved_of_not_escaped : ∀ c : BitVec 8, isEscaped c = false → Unreserved c := by
  unfold Unreserved
  decide

theorem hexValue_upperDigit : ∀ n < 16, hexValue? (upperDigit n) = some n := by decide

theorem isHexDigit_upperDigit {n : ℕ} (h : n < 16) : isHexDigit (upperDigit n) = true := by
  rw [isHexDigit, hexValue_upperDigit n h]
  rfl

theorem encode_eq_flatMap (input : List (BitVec 8)) : encode input = input.flatMap encodeChar :=
  (List.flatMap_eq_foldl ..).symm

theorem percentEncoded_encode (input : List (BitVec 8)) : PercentEncoded (encode input) := by
  refine ⟨input.map encodeChar, encode_eq_flatMap input, ?_⟩
  intro piece hpiece
  obtain ⟨c, -, rfl⟩ := List.mem_map.mp hpiece
  unfold encodeChar
  split
  · right
    refine ⟨_, _, rfl, isHexDigit_upperDigit ?_, isHexDigit_upperDigit ?_⟩
    · have := c.isLt
      omega
    · exact Nat.mod_lt _ (by decide)
  · rename_i hescaped
    left
    exact ⟨c, rfl, unreserved_of_not_escaped c (by simpa using hescaped)⟩

theorem length_encode_le (input : List (BitVec 8)) :
    (encode input).length ≤ 3 * input.length := by
  rw [encode_eq_flatMap]
  induction input with
  | nil => simp
  | cons c input ih =>
    have hchar : (encodeChar c).length ≤ 3 := by
      unfold encodeChar
      split
      · simp
      · simp
    rw [List.flatMap_cons, List.length_append, List.length_cons]
    omega

/-- What is added for a character stands for the character. -/
theorem decoded_encodeChar_append (c : BitVec 8) (rest : List (BitVec 8)) :
    decoded (encodeChar c ++ rest) = c :: decoded rest := by
  unfold encodeChar
  split
  · have hbyte := c.isLt
    have hhigh : c.toNat / 16 < 16 := by omega
    have hlow : c.toNat % 16 < 16 := Nat.mod_lt _ (by decide)
    have hgroup : groupByte (upperDigit (c.toNat / 16)) (upperDigit (c.toNat % 16)) = c := by
      rw [groupByte, hexValue_upperDigit _ hhigh, hexValue_upperDigit _ hlow,
        Option.getD_some, Option.getD_some, Nat.div_add_mod, BitVec.ofNat_toNat,
        BitVec.setWidth_eq]
    show decoded (_ :: _ :: _ :: rest) = _
    rw [decoded_of_beginsGroup, hgroup]
    simp [beginsGroup, isHexDigit_upperDigit hhigh, isHexDigit_upperDigit hlow]
  · rename_i hescaped
    have hpercent : c ≠ charByte '%' := by
      rintro rfl
      exact hescaped (by decide)
    have hplus : c ≠ charByte '+' := by
      rintro rfl
      exact hescaped (by decide)
    have hgroup : beginsGroup (c :: rest) = false := by
      unfold beginsGroup
      split
      · rename_i heq
        obtain ⟨rfl, -⟩ := List.cons.inj heq
        simp [hpercent]
      · rfl
    rw [List.singleton_append, decoded_of_not_beginsGroup hgroup, plainByte, if_neg hplus]

theorem decoded_encode (input : List (BitVec 8)) : decoded (encode input) = input := by
  rw [encode_eq_flatMap]
  induction input with
  | nil => rfl
  | cons c input ih => rw [List.flatMap_cons, decoded_encodeChar_append, ih]

/-- Decoding what was encoded gives the string back. -/
def RoundTrips (input : List (BitVec 8)) : Prop :=
  ∃ fuel, decode (encode input) fuel = some (.ok input)

theorem roundTrips_of_lt {input : List (BitVec 8)} (hlength : input.length < 1073741824) :
    RoundTrips input := by
  have hle := length_encode_le input
  have hcovered : (encode input).length < 4294967296 := by omega
  obtain ⟨fuel, hfuel⟩ := decodesGroups_of_lt hcovered
  rw [decoded_encode] at hfuel
  exact ⟨fuel, hfuel⟩

/-- **When percent coding is right.** Strings below `2^30` bytes are encoded with unreserved
characters and groups only and come back; a string is decoded iff it is shorter than `2^32`
bytes.
SOURCE: Url.cpp:38-82, 90-113 -/
theorem url_coding_iff (s t : List (BitVec 8)) :
    ((s.length < 1073741824 → RoundTrips s ∧ PercentEncoded (encode s)) ∧ DecodesGroups t) ↔
      t.length < 4294967296 := by
  rw [decodesGroups_iff]
  constructor
  · exact fun h => h.2
  · exact fun h => ⟨fun hs => ⟨roundTrips_of_lt hs, percentEncoded_encode s⟩, h⟩

/-- A string of `2^32` letters: the index comes back to the front. -/
theorem long_string_not_decoded :
    ¬ DecodesGroups (List.replicate 4294967296 (charByte 'a')) ∧
      ∀ fuel, decode (List.replicate 4294967296 (charByte 'a')) fuel = none := by
  have hlength : 4294967296 ≤ (List.replicate 4294967296 (charByte 'a')).length := by
    rw [List.length_replicate]
  refine ⟨?_, not_decodes hlength⟩
  rintro ⟨fuel, hfuel⟩
  rw [not_decodes hlength] at hfuel
  cases hfuel

end OlpEdgeSdk.Analysis.UrlCoding

import Mathlib.Data.BitVec
import Mathlib.Data.List.Basic
import OlpEdgeSdk.Model.Base64

/-!
# Base64 is a faithful codec

A text is well formed if it is empty, or has a multiple of four characters that are in the
alphabet up to at most two equals signs at the end. These are the texts that the decoder takes
(`isValidBase64_iff`); it finds their alphabet part again whatever the padding
(`endNoPadding_append`), and what it copies fits into the vector. The encoder's texts are
among them, and the bits that were filled up with zeros are fewer than a byte, so decoding drops
them.
-/

set_option autoImplicit false

namespace OlpEdgeSdk.Analysis.Base64Codec

open OlpEdgeSdk.Base OlpEdgeSdk.Model.Base64
open OlpEdgeSdk.Model.Url (charByte)

/-! ## The alphabet -/

/-- The codes of the alphabet: the letters, the digits and two signs. -/
def codes : List (BitVec 8) :=
  (List.range' 65 26 ++ List.range' 97 26 ++ List.range' 48 10 ++ [43, 47]).map (BitVec.ofNat 8)

theorem alphabet_eq : alphabet = codes := by decide

theorem mem_alphabet_iff (c : BitVec 8) :
    c ∈ alphabet ↔ (65 ≤ c.toNat ∧ c.toNat ≤ 90) ∨ (97 ≤ c.toNat ∧ c.toNat ≤ 122) ∨
      (48 ≤ c.toNat ∧ c.toNat ≤ 57) ∨ c.toNat = 43 ∨ c.toNat = 47 := by
  have hcodes : codes.map BitVec.toNat =
      List.range' 65 26 ++ List.range' 97 26 ++ List.range' 48 10 ++ [43, 47] := by decide
  rw [alphabet_eq, ← List.mem_map_of_injective BitVec.toNat_injective, hcodes]
  simp only [List.mem_append, List.mem_range'_1, List.mem_cons, List.not_mem_nil, or_false]
  omega

theorem notBase64Symbol_eq_false_iff (c : BitVec 8) :
    notBase64Symbol c = false ↔ c ∈ alphabet := by
  have hplus : c = charByte '+' ↔ c.toNat = 43 := by
    rw [← BitVec.toNat_inj]
    rfl
  have hbounds : (charByte '/').toInt = 47 ∧ (charByte '9').toInt = 57 ∧
      (charByte 'A').toInt = 65 ∧ (charByte 'Z').toInt = 90 ∧ (charByte 'a').toInt = 97 ∧
      (charByte 'z').toInt = 122 := by decide
  obtain ⟨hslash, hnine, hA, hZ, ha, hz⟩ := hbounds
  have hlt := c.isLt
  rw [mem_alphabet_iff, notBase64Symbol, decide_eq_false_iff_not, not_not, hplus, hslash, hnine,
    hA, hZ, ha, hz, BitVec.toInt_eq_toNat_cond]
  split <;> omega

theorem binaryFromBase64_base64FromBinary (word : BitVec 6) :
    binaryFromBase64 (base64FromBinary word) = some word := by
  unfold binaryFromBase64 base64FromBinary
  rw [alphabet_eq]
  revert word
  decide

theorem base64FromBinary_mem (word : BitVec 6) : base64FromBinary word ∈ alphabet := by
  unfold base64FromBinary
  rw [alphabet_eq]
  revert word
  decide

theorem equals_notMem_alphabet : charByte '=' ∉ alphabet := by
  rw [alphabet_eq]
  decide

/-! ## Texts that are accepted -/

/-- Characters of the alphabet and at most two equals signs behind them. -/
def Padded (s : List (BitVec 8)) : Prop :=
  ∃ body k, s = body ++ List.replicate k (charByte '=') ∧ k ≤ 2 ∧ ∀ c ∈ body, c ∈ alphabet

/-- **The padding is found**, however long it is. -/
theorem endNoPadding_append {body : List (BitVec 8)} (hbody : ∀ c ∈ body, c ∈ alphabet)
    (hne : body ≠ []) {k : ℕ} (hk : k ≤ 2) :
    endNoPadding (body ++ List.replicate k (charByte '=')) = body.length := by
  have hpos : 0 < body.length := List.length_pos_iff.mpr hne
  have hlast : body[body.length - 1]? ≠ some (charByte '=') := by
    intro hequals
    exact equals_notMem_alphabet (hbody _ (List.mem_of_getElem? hequals))
  have hpad : ∀ {i : ℕ}, body.length ≤ i → i < body.length + k →
      (body ++ List.replicate k (charByte '='))[i]? = some (charByte '=') := by
    intro i hle hlt
    rw [List.getElem?_append_right hle, List.getElem?_replicate_of_lt (by omega)]
  have hstop : (body ++ List.replicate k (charByte '='))[body.length - 1]? ≠
      some (charByte '=') := by
    rw [List.getElem?_append_left (by omega)]
    exact hlast
  unfold endNoPadding
  rw [List.length_append, List.length_replicate]
  rcases Nat.eq_zero_or_pos k with rfl | hkpos
  · rw [Nat.add_zero, if_neg hstop]
  · rw [if_pos (hpad (by omega) (by omega))]
    rcases Nat.eq_or_lt_of_le hkpos with rfl | hktwo
    · rw [if_neg]
      · rfl
      · exact hstop
    · obtain rfl : k = 2 := by omega
      rw [if_pos (hpad (by omega) (by omega))]
      rfl

/-- What is cut off is padding. -/
theorem take_endNoPadding (s : List (BitVec 8)) (hlength : 2 ≤ s.length) :
    ∃ k ≤ 2, s = s.take (endNoPadding s) ++ List.replicate k (charByte '=') := by
  have hcut : ∀ {i : ℕ}, i < s.length → s.drop i = s[i]?.toList ++ s.drop (i + 1) := by
    intro i hi
    rw [List.drop_eq_getElem_cons hi, List.getElem?_eq_getElem hi]
    rfl
  have hdrop : ∃ k ≤ 2, s.drop (endNoPadding s) = List.replicate k (charByte '=') := by
    unfold endNoPadding
    dsimp only
    split
    · rename_i hlast
      split
      · rename_i hsecond
        refine ⟨2, Nat.le_refl 2, ?_⟩
        rw [hcut (by omega), hsecond, show s.length - 2 + 1 = s.length - 1 by omega,
          hcut (by omega), hlast, List.drop_of_length_le (by omega)]
        rfl
      · refine ⟨1, by decide, ?_⟩
        rw [hcut (by omega), hlast, List.drop_of_length_le (by omega)]
        rfl
    · exact ⟨0, by decide, List.drop_length⟩
  obtain ⟨k, hk, hdrop⟩ := hdrop
  exact ⟨k, hk, by rw [← hdrop, List.take_append_drop]⟩

/-- **Accepted texts** are the well-formed ones. -/
theorem isValidBase64_iff {s : List (BitVec 8)} (hne : s ≠ []) :
    isValidBase64 s = true ↔ s.length % 4 = 0 ∧ Padded s := by
  have hlength : s.length ≠ 0 := fun h => hne (List.length_eq_zero_iff.mp h)
  unfold isValidBase64
  dsimp only
  rw [if_neg hlength]
  by_cases hfour : s.length % 4 = 0
  · rw [if_neg (by simp [hfour])]
    obtain ⟨k, hk, hs⟩ := take_endNoPadding s (by omega)
    have hend : (s.take (endNoPadding s)).length = endNoPadding s := by
      rw [List.length_take, Nat.min_eq_left]
      unfold endNoPadding
      dsimp only
      split
      · split
        · omega
        · omega
      · omega
    have hfind : (s.take (endNoPadding s)).findIdx notBase64Symbol = endNoPadding s ↔
        ∀ c ∈ s.take (endNoPadding s), c ∈ alphabet := by
      conv_lhs => rhs; rw [← hend]
      rw [List.findIdx_eq_length]
      simp only [notBase64Symbol_eq_false_iff]
    rw [decide_eq_true_eq, hfind]
    constructor
    · exact fun hall => ⟨hfour, _, k, hs, hk, hall⟩
    · rintro ⟨-, body, k', rfl, hk', hbody⟩
      have hnebody : body ≠ [] := by
        rintro rfl
        simp only [List.nil_append, List.length_replicate] at hlength hfour
        omega
      rw [endNoPadding_append hbody hnebody hk', List.take_left' rfl]
      exact hbody
  · rw [if_pos hfour]
    constructor
    · intro h
      cases h
    · exact fun h => absurd h.1 hfour

/-! ## Decoding -/

theorem mapM_binaryFromBase64 {s : List (BitVec 8)} (h : ∀ c ∈ s, c ∈ alphabet) :
    ∃ words, s.mapM binaryFromBase64 = some words ∧ words.length = s.length := by
  induction s with
  | nil => exact ⟨[], rfl, rfl⟩
  | cons c s ih =>
    obtain ⟨words, hwords, hlength⟩ := ih fun d hd => h d (List.mem_cons_of_mem c hd)
    have hword : ∃ word, binaryFromBase64 c = some word := by
      have hfound : (alphabet.findIdx? (· = c)).isSome = true := by
        rw [List.findIdx?_isSome, List.any_eq_true]
        exact ⟨c, h c List.mem_cons_self, decide_eq_true rfl⟩
      obtain ⟨i, hi⟩ := Option.isSome_iff_exists.mp hfound
      exact ⟨BitVec.ofNat 6 i, by rw [binaryFromBase64, hi]; rfl⟩
    obtain ⟨word, hword⟩ := hword
    refine ⟨word :: words, ?_, ?_⟩
    · rw [List.mapM_cons, hword, hwords]
      rfl
    · rw [List.length_cons, List.length_cons, hlength]

theorem mapM_map_base64FromBinary (words : List (BitVec 6)) :
    (words.map base64FromBinary).mapM binaryFromBase64 = some words := by
  induction words with
  | nil => rfl
  | cons word words ih =>
    rw [List.map_cons, List.mapM_cons, binaryFromBase64_base64FromBinary, ih]
    rfl

/-- What the words of a text decode to. -/
def copied (words : List (BitVec 6)) (writeNullBytes : Bool) : List (BitVec 8) :=
  if writeNullBytes then Regroup.whole 8 words else (Regroup.whole 8 words).filter (· ≠ 0)

/-- What is copied fits into the vector. -/
theorem length_copied_le {words : List (BitVec 6)} {len : ℕ} (hlength : words.length ≤ len)
    (hfour : len % 4 = 0) (writeNullBytes : Bool) :
    (copied words writeNullBytes).length ≤ len / 4 * 3 := by
  have hwhole : (Regroup.whole 8 words).length ≤ len / 4 * 3 := by
    rw [Regroup.whole, Regroup.length_words]
    omega
  unfold copied
  split
  · exact hwhole
  · exact Nat.le_trans (List.length_filter_le _ _) hwhole

/-- **A well-formed text is decoded**, into what its words make up. -/
theorem base64Decode_of_padded {body : List (BitVec 8)} (hbody : ∀ c ∈ body, c ∈ alphabet)
    {k : ℕ} (hk : k ≤ 2) (hne : body ≠ []) {words : List (BitVec 6)}
    (hfour : (body ++ List.replicate k (charByte '=')).length % 4 = 0)
    (hwords : body.mapM binaryFromBase64 = some words) (hlength : words.length = body.length)
    (bytes : List (BitVec 8)) (writeNullBytes : Bool) :
    base64Decode (body ++ List.replicate k (charByte '=')) bytes writeNullBytes =
      some (true, copied words writeNullBytes) := by
  have hnil : body ++ List.replicate k (charByte '=') ≠ [] := by simp [hne]
  have hvalid := (isValidBase64_iff hnil).mpr ⟨hfour, body, k, rfl, hk, hbody⟩
  have hshort : words.length ≤ (body ++ List.replicate k (charByte '=')).length := by
    rw [hlength, List.length_append]
    omega
  have hfits := length_copied_le hshort hfour writeNullBytes
  unfold base64Decode
  rw [if_neg (by simpa using hnil), if_neg (by simp [hvalid]), endNoPadding_append hbody hne hk,
    List.take_left' rfl, hwords]
  exact if_pos hfits

/-! ## The codec -/

/-- The texts of the encoding: the empty one, and those of a multiple of four characters that
are alphabet characters and at most two equals signs behind them. -/
def WellFormed (s : List (BitVec 8)) : Prop := s = [] ∨ (s.length % 4 = 0 ∧ Padded s)

/-- The decoder takes the well-formed texts and leaves the vector as it is on any other. -/
theorem base64Decode_spec (s bytes : List (BitVec 8)) (writeNullBytes : Bool) :
    ∃ accepted bytes', base64Decode s bytes writeNullBytes = some (accepted, bytes') ∧
      (accepted = true ↔ WellFormed s) ∧ (accepted = false → bytes' = bytes) := by
  rcases List.eq_nil_or_concat s with hnil | ⟨front, last, hcons⟩
  · subst hnil
    refine ⟨true, [], rfl, ?_, ?_⟩
    · exact iff_of_true rfl (Or.inl rfl)
    · intro h
      cases h
  · have hne : s ≠ [] := by simp [hcons]
    have hiff : WellFormed s ↔ isValidBase64 s = true := by
      rw [isValidBase64_iff hne, WellFormed, or_iff_right hne]
    cases hvalid : isValidBase64 s with
    | false =>
      refine ⟨false, bytes, ?_, ?_, fun _ => rfl⟩
      · unfold base64Decode
        rw [if_neg (by simpa using hne), if_pos (by simp [hvalid])]
      · rw [hiff, hvalid]
    | true =>
      obtain ⟨hfour, body, k, rfl, hk, hbody⟩ := (isValidBase64_iff hne).mp hvalid
      have hnebody : body ≠ [] := by
        rintro rfl
        simp only [List.nil_append, List.length_replicate] at hfour
        obtain rfl : k = 0 := by omega
        exact hne rfl
      obtain ⟨words, hwords, hlength⟩ := mapM_binaryFromBase64 hbody
      refine ⟨true, _, base64Decode_of_padded hbody hk hnebody hfour hwords hlength bytes
        writeNullBytes, ?_, ?_⟩
      · rw [hiff, hvalid]
      · intro h
        cases h

/-- Decoding gives back what was encoded, up to the null bytes where they are not wanted. -/
theorem base64Decode_base64Encode (b bytes : List (BitVec 8)) (writeNullBytes : Bool) :
    base64Decode (base64Encode b) bytes writeNullBytes =
      some (true, if writeNullBytes then b else b.filter (· ≠ 0)) := by
  by_cases hnil : b = []
  · subst hnil
    cases writeNullBytes with
    | false => rfl
    | true => rfl
  · have hpos : 0 < b.length := List.length_pos_iff.mpr hnil
    have hlength : ((Regroup.packed 6 b).map base64FromBinary).length = (8 * b.length + 5) / 6 := by
      rw [List.length_map, Regroup.packed, Regroup.length_words]
    have hbody : ∀ c ∈ (Regroup.packed 6 b).map base64FromBinary, c ∈ alphabet := by
      intro c hc
      obtain ⟨word, -, rfl⟩ := List.mem_map.mp hc
      exact base64FromBinary_mem word
    have hne : (Regroup.packed 6 b).map base64FromBinary ≠ [] := by
      rw [← List.length_pos_iff, hlength]
      omega
    unfold base64Encode
    dsimp only
    rw [if_neg (by omega), base64Decode_of_padded hbody (by omega) hne ?_
      (mapM_map_base64FromBinary _) (List.length_map _).symm, copied,
      Regroup.whole_packed (by decide) (by decide)]
    -- the padding makes up for what the length of the input lacks to a multiple of three
    rw [List.length_append, List.length_replicate, hlength]
    have hmod : b.length % 3 = 0 ∨ b.length % 3 = 1 ∨ b.length % 3 = 2 := by omega
    rcases hmod with hmod | hmod | hmod
    · rw [hmod]
      omega
    · rw [hmod]
      omega
    · rw [hmod]
      omega

/-- **Base64 is a faithful codec**: what was encoded is decoded again, the well-formed texts are
the ones that are accepted, and a text that is rejected leaves the vector as it was.
SOURCE: Base64.cpp:32-126 -/
theorem base64_faithful (b s bytes : List (BitVec 8)) (writeNullBytes : Bool) :
    base64Decode (base64Encode b) bytes true = some (true, b) ∧
      ∃ accepted bytes', base64Decode s bytes writeNullBytes = some (accepted, bytes') ∧
        (accepted = true ↔ WellFormed s) ∧ (accepted = false → bytes' = bytes) :=
  ⟨base64Decode_base64Encode b bytes true, base64Decode_spec s bytes writeNullBytes⟩

end OlpEdgeSdk.Analysis.Base64Codec

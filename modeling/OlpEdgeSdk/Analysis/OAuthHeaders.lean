import OlpEdgeSdk.Analysis.Base64Codec
import OlpEdgeSdk.Analysis.MessageDigests
import OlpEdgeSdk.Analysis.UrlCoding
import OlpEdgeSdk.Base.Parameters
import OlpEdgeSdk.Model.OAuthHeader

/-!
# What a signed header says

A header is the list of its parameters, each value encoded and in quotes; the signed text is the
list of the same parameters but the last, with the values as they are. Both are texts of
`Base.Parameters`, so a header is read back (`header_reads_back`) and the signed text determines
what it was made of (`signatureBase_inj_iff`), although a key may hold ampersands. In the header the
values stand encoded: the signed text is the one with the values as they stand there only if the
key has nothing to encode (`signed_as_sent_iff`).
-/

set_option autoImplicit false

namespace OlpEdgeSdk.Analysis.OAuthHeaders

open OlpEdgeSdk.Base OlpEdgeSdk.Base.Parameters OlpEdgeSdk.Base.Sha256
open OlpEdgeSdk.Model OlpEdgeSdk.Model.OAuth
open OlpEdgeSdk.Model.Url (charByte isEscaped encode encodeChar upperDigit)
open OlpEdgeSdk.Model.StreamLayerClientImpl (Uuid)
open OlpEdgeSdk.Analysis.UrlCoding

/-! ## The texts as lists of parameters -/

/-- The parameters beside the key. -/
def furtherParameters (uid : List (BitVec 8)) (currentTime : ℤ) : List (Parameter (BitVec 8)) :=
  [(oauthNonce, uid), (oauthSignatureMethod, hmacName), (oauthTimestamp, timeText currentTime),
    (oauthVersion, version)]

/-- The parameters that are signed. -/
def signedParameters (key uid : List (BitVec 8)) (currentTime : ℤ) :
    List (Parameter (BitVec 8)) :=
  (oauthConsumerKey, key) :: furtherParameters uid currentTime

/-- The parameters of a header. -/
def headerParameters (key uid signature : List (BitVec 8)) (currentTime : ℤ) :
    List (Parameter (BitVec 8)) :=
  signedParameters key uid currentTime ++ [(oauthSignature, signature)]

/-- The text that is signed for a list of parameters. -/
def baseOf (url : List (BitVec 8)) (params : List (Parameter (BitVec 8))) : List (BitVec 8) :=
  oauthPost ++ paramAdd ++ encode url ++ paramAdd ++
    encode (joined (charByte '&') (charByte '=') params)

def quoted (value : List (BitVec 8)) : List (BitVec 8) := charByte '"' :: (value ++ [charByte '"'])

def unquoted (text : List (BitVec 8)) : List (BitVec 8) := text.tail.dropLast

/-- The parameters of a header, with the values as they stand there. -/
def sentParameters (header : List (BitVec 8)) : List (Parameter (BitVec 8)) :=
  (parametersOf (charByte ',') (charByte '=') (header.drop 6)).map (Prod.map id unquoted)

/-- The parameters of a header, with the values decoded. -/
def readParameters (header : List (BitVec 8)) : List (Parameter (BitVec 8)) :=
  (sentParameters header).map (Prod.map id decoded)

theorem paramAdd_eq : paramAdd = [charByte '&'] := rfl

theorem paramComma_eq : paramComma = [charByte ','] := rfl

theorem paramEquals_eq : paramEquals = [charByte '='] := rfl

theorem paramQuote_eq : paramQuote = [charByte '"'] := rfl

theorem unquoted_quoted (value : List (BitVec 8)) : unquoted (quoted value) = value := by
  unfold unquoted quoted
  rw [List.tail_cons, List.dropLast_concat]

theorem signatureBase_eq (url key uid : List (BitVec 8)) (currentTime : ℤ) :
    signatureBase url key uid currentTime = baseOf url (signedParameters key uid currentTime) := by
  have hquery : query key uid currentTime =
      joined (charByte '&') (charByte '=') (signedParameters key uid currentTime) := by
    unfold query joined signedParameters furtherParameters item
    simp only [List.append_assoc, List.map_cons, List.map_nil, List.intercalate_cons_cons,
      List.intercalate_singleton, List.cons_append, List.nil_append, paramAdd_eq, paramEquals_eq]
  rw [signatureBase, baseOf, hquery]

/-! ## Encoded texts -/

theorem isEscaped_eq_false_iff : ∀ c : BitVec 8, isEscaped c = false ↔ Unreserved c := by
  unfold Unreserved
  decide

/-- What stands in an encoded text. -/
theorem unreserved_or_percent_of_mem {text : List (BitVec 8)} {x : BitVec 8}
    (h : x ∈ encode text) : Unreserved x ∨ x = charByte '%' := by
  have hdigit : ∀ n < 16, isEscaped (upperDigit n) = false := by decide
  rw [encode_eq_flatMap] at h
  obtain ⟨c, -, hx⟩ := List.mem_flatMap.mp h
  unfold encodeChar at hx
  split at hx
  · have hbyte := c.isLt
    rw [List.mem_cons, List.mem_pair] at hx
    rcases hx with rfl | rfl | rfl
    · exact Or.inr rfl
    · exact Or.inl ((isEscaped_eq_false_iff _).mp (hdigit _ (by omega)))
    · exact Or.inl ((isEscaped_eq_false_iff _).mp (hdigit _ (Nat.mod_lt _ (by decide))))
  · rename_i hescaped
    rw [List.mem_singleton] at hx
    subst hx
    exact Or.inl ((isEscaped_eq_false_iff x).mp (by simpa using hescaped))

theorem notMem_encode {c : BitVec 8} (hescaped : isEscaped c = true) (hpercent : c ≠ charByte '%')
    (text : List (BitVec 8)) : c ∉ encode text := by
  intro hmem
  rcases unreserved_or_percent_of_mem hmem with h | h
  · rw [← isEscaped_eq_false_iff, hescaped] at h
    cases h
  · exact hpercent h

/-- What has nothing to encode stays as it is. -/
theorem encode_of_unreserved {text : List (BitVec 8)} (h : ∀ c ∈ text, Unreserved c) :
    encode text = text := by
  rw [encode_eq_flatMap]
  induction text with
  | nil => rfl
  | cons c text ih =>
    have hc : isEscaped c = false := (isEscaped_eq_false_iff c).mpr (h c List.mem_cons_self)
    rw [List.flatMap_cons, ih fun x hx => h x (List.mem_cons_of_mem c hx), encodeChar, hc]
    rfl

/-- Encoding makes a text longer, unless it has nothing to encode. -/
theorem length_lt_length_encode {text : List (BitVec 8)} (h : ¬ ∀ c ∈ text, Unreserved c) :
    text.length < (encode text).length := by
  rw [encode_eq_flatMap]
  induction text with
  | nil => exact absurd (fun c hc => absurd hc List.not_mem_nil) h
  | cons c text ih =>
    have hchar : 1 ≤ (encodeChar c).length ∧ (isEscaped c = true → 2 ≤ (encodeChar c).length) := by
      unfold encodeChar
      split
      · simp
      · simp_all
    have htext : text.length ≤ (text.flatMap encodeChar).length := by
      by_cases hall : ∀ x ∈ text, Unreserved x
      · rw [← encode_eq_flatMap, encode_of_unreserved hall]
      · exact Nat.le_of_lt (ih hall)
    rw [List.flatMap_cons, List.length_append, List.length_cons]
    cases hescaped : isEscaped c with
    | true =>
      have htwo := hchar.2 hescaped
      omega
    | false =>
      have hrest : ¬ ∀ x ∈ text, Unreserved x := by
        intro hall
        refine h fun x hx => ?_
        rcases List.mem_cons.mp hx with rfl | hx
        · exact (isEscaped_eq_false_iff x).mp hescaped
        · exact hall x hx
      have hlt := ih hrest
      omega

theorem encode_injective : Function.Injective encode :=
  Function.LeftInverse.injective decoded_encode

theorem unreserved_hmacName : ∀ c ∈ hmacName, Unreserved c := by
  have hall : ∀ c ∈ hmacName, isEscaped c = false := by decide
  exact fun c hc => (isEscaped_eq_false_iff c).mp (hall c hc)

theorem unreserved_version : ∀ c ∈ version, Unreserved c := by
  have hall : ∀ c ∈ version, isEscaped c = false := by decide
  exact fun c hc => (isEscaped_eq_false_iff c).mp (hall c hc)

/-! ## Nonces and times -/

/-- The characters of a uuid and of a decimal form. -/
def IsPlain (c : Char) : Prop := c.isDigit = true ∨ ('a' ≤ c ∧ c ≤ 'f') ∨ c = '-'

instance : DecidablePred IsPlain := fun c =>
  inferInstanceAs (Decidable (c.isDigit = true ∨ ('a' ≤ c ∧ c ≤ 'f') ∨ c = '-'))

theorem toNat_lt_of_isPlain {c : Char} (h : IsPlain c) : c.toNat < 128 := by
  rcases h with h | ⟨-, h⟩ | rfl
  · have hle : c ≤ '9' := by
      simp only [Char.isDigit, Bool.and_eq_true, decide_eq_true_eq] at h
      exact h.2
    exact Nat.lt_of_le_of_lt hle (by decide)
  · exact Nat.lt_of_le_of_lt h (by decide)
  · decide

theorem unreserved_of_isPlain {c : Char} (h : IsPlain c) : Unreserved (charByte c) := by
  have hall : ∀ n < 128, IsPlain (Char.ofNat n) → isEscaped (charByte (Char.ofNat n)) = false := by
    decide
  rw [← isEscaped_eq_false_iff]
  have hc := hall c.toNat (toNat_lt_of_isPlain h)
  rw [Char.ofNat_toNat] at hc
  exact hc h

theorem unreserved_bytesOf {text : List Char} (h : ∀ c ∈ text, IsPlain c) :
    ∀ c ∈ bytesOf text, Unreserved c := by
  intro c hc
  obtain ⟨d, hd, rfl⟩ := List.mem_map.mp hc
  exact unreserved_of_isPlain (h d hd)

theorem isPlain_decimal {n : ℤ} : ∀ c ∈ decimal n, IsPlain c := by
  intro c hc
  rcases mem_decimal hc with h | h
  · exact Or.inr (Or.inr h)
  · exact Or.inl h

/-- All values but the key have nothing to encode. -/
theorem unreserved_furtherParameters (uid : Uuid) (currentTime : ℤ) :
    ∀ p ∈ furtherParameters (bytesOf uid.text) currentTime, ∀ c ∈ p.2, Unreserved c := by
  intro p hp
  simp only [furtherParameters, List.mem_cons, List.not_mem_nil, or_false] at hp
  rcases hp with rfl | rfl | rfl | rfl
  · exact unreserved_bytesOf uid.chars
  · exact unreserved_hmacName
  · exact unreserved_bytesOf isPlain_decimal
  · exact unreserved_version

theorem bytesOf_inj {text text' : List Char} (h : ∀ c ∈ text, IsPlain c)
    (h' : ∀ c ∈ text', IsPlain c) (heq : bytesOf text = bytesOf text') : text = text' := by
  have hback : ∀ {t : List Char}, (∀ c ∈ t, IsPlain c) →
      (bytesOf t).map (fun b => Char.ofNat b.toNat) = t := by
    intro t ht
    unfold bytesOf
    rw [List.map_map]
    conv_rhs => rw [← List.map_id t]
    refine List.map_congr_left fun c hc => ?_
    have hlt : c.toNat < 256 := Nat.lt_trans (toNat_lt_of_isPlain (ht c hc)) (by decide)
    show Char.ofNat (BitVec.ofNat 8 c.toNat).toNat = c
    rw [BitVec.toNat_ofNat, Nat.mod_eq_of_lt hlt, Char.ofNat_toNat]
  rw [← hback h, heq, hback h']

/-! ## The header -/

/-- The names hold no separator. -/
theorem names_free {key uid signature : List (BitVec 8)} {currentTime : ℤ} :
    ∀ p ∈ headerParameters key uid signature currentTime,
      ∀ c ∈ [charByte '&', charByte ',', charByte '='], c ∉ p.1 := by
  have hname : ∀ name ∈ [oauthConsumerKey, oauthNonce, oauthSignatureMethod, oauthTimestamp,
      oauthVersion, oauthSignature], ∀ c ∈ [charByte '&', charByte ',', charByte '='],
      c ∉ name := by
    decide
  intro p hp
  exact hname p.1 (List.mem_map_of_mem hp)

theorem further_names_free {uid : List (BitVec 8)} {currentTime : ℤ} :
    ∀ p ∈ furtherParameters uid currentTime, charByte '&' ∉ p.1 ∧ charByte '=' ∉ p.1 := by
  intro p hp
  have hmem : p ∈ headerParameters [] uid [] currentTime :=
    List.mem_append_left _ (List.mem_cons_of_mem _ hp)
  exact ⟨names_free p hmem _ (by simp), names_free p hmem _ (by simp)⟩

theorem length_scheme : (bytesOf "OAuth ".toList).length = 6 := by decide

/-- **The header is the list of its parameters**, each encoded and in quotes. -/
theorem authorization_eq (key uid signature : List (BitVec 8)) (currentTime : ℤ) :
    authorization key uid signature currentTime = bytesOf "OAuth ".toList ++
      joined (charByte ',') (charByte '=')
        ((headerParameters key uid signature currentTime).map
          fun p => (p.1, quoted (encode p.2))) := by
  have hmethod : encode hmacName = hmacName := encode_of_unreserved unreserved_hmacName
  have hversion : encode version = version := encode_of_unreserved unreserved_version
  unfold authorization joined headerParameters signedParameters furtherParameters item quoted
  simp only [List.cons_append, List.nil_append, List.append_assoc, List.map_cons, List.map_nil,
    List.intercalate_cons_cons, List.intercalate_singleton, hmethod, hversion, paramComma_eq,
    paramEquals_eq, paramQuote_eq]

theorem sentParameters_authorization (key uid signature : List (BitVec 8)) (currentTime : ℤ) :
    sentParameters (authorization key uid signature currentTime) =
      (headerParameters key uid signature currentTime).map fun p => (p.1, encode p.2) := by
  unfold sentParameters
  rw [authorization_eq, List.drop_left' length_scheme, parametersOf_joined (by decide)
    (by simp [headerParameters]), List.map_map]
  · refine List.map_congr_left fun p _ => ?_
    exact Prod.ext rfl (unquoted_quoted _)
  · intro q hq
    obtain ⟨p, hp, rfl⟩ := List.mem_map.mp hq
    exact ⟨names_free p hp _ (by simp), names_free p hp _ (by simp)⟩
  · intro q hq
    obtain ⟨p, -, rfl⟩ := List.mem_map.mp hq
    show charByte ',' ∉ quoted (encode p.2)
    unfold quoted
    rw [List.mem_cons, List.mem_append, List.mem_singleton]
    rintro (h | h | h)
    · exact absurd h (by decide)
    · exact notMem_encode (by decide) (by decide) p.2 h
    · exact absurd h (by decide)

theorem readParameters_authorization (key uid signature : List (BitVec 8)) (currentTime : ℤ) :
    readParameters (authorization key uid signature currentTime) =
      headerParameters key uid signature currentTime := by
  unfold readParameters
  rw [sentParameters_authorization, List.map_map]
  conv_rhs => rw [← List.map_id (headerParameters key uid signature currentTime)]
  refine List.map_congr_left fun p _ => ?_
  exact Prod.ext rfl (decoded_encode p.2)

/-- There is no line feed in what is encoded. -/
theorem base64Encode_eq (vector : List (BitVec 8)) :
    OAuth.base64Encode vector = Base64.base64Encode vector := by
  have hword : ∀ word, Base64.base64FromBinary word ≠ lineFeed := by decide
  have hpad : charByte '=' ≠ lineFeed := by decide
  unfold OAuth.base64Encode
  rw [List.takeWhile_eq_self_iff]
  intro c hc
  apply decide_eq_true
  unfold Base64.base64Encode at hc
  dsimp only at hc
  split at hc
  · exact absurd hc List.not_mem_nil
  · rcases List.mem_append.mp hc with hc | hc
    · obtain ⟨word, -, rfl⟩ := List.mem_map.mp hc
      exact hword word
    · rw [List.eq_of_mem_replicate hc]
      exact hpad

theorem toUnsignedCharVector_chars (str : List (BitVec 8)) :
    Crypto.toUnsignedCharVector (chars str) = str := by
  unfold Crypto.toUnsignedCharVector chars
  rw [List.map_map]
  exact List.map_id str

/-- The signature of a list of parameters. -/
def signatureOf (secret url : List (BitVec 8)) (params : List (Parameter (BitVec 8))) :
    List (BitVec 8) :=
  Base64.base64Encode (hmac digest 64 (encodeKey secret) (baseOf url params))

/-- A header is always made. -/
theorem generateHeader_eq (fresh : Vector (BitVec 32) 64) (key secret url : List (BitVec 8))
    (uid : Uuid) (currentTime : ℤ) :
    generateHeader fresh key secret url uid currentTime =
      some (authorization key (bytesOf uid.text)
        (signatureOf secret url (signedParameters key (bytesOf uid.text) currentTime))
        currentTime) := by
  unfold generateHeader signatureOf
  dsimp only
  rw [MessageDigests.hmacSha256_eq, toUnsignedCharVector_chars, toUnsignedCharVector_chars,
    signatureBase_eq, ← base64Encode_eq]
  rfl

/-! ## The signed text -/

/-- **The query determines what it is made of**, whatever the key holds. -/
theorem signedParameters_inj {key key' : List (BitVec 8)} {uid uid' : Uuid}
    {currentTime currentTime' : ℤ}
    (h : joined (charByte '&') (charByte '=')
        (signedParameters key (bytesOf uid.text) currentTime) =
      joined (charByte '&') (charByte '=')
        (signedParameters key' (bytesOf uid'.text) currentTime')) :
    key = key' ∧ uid.text = uid'.text ∧ currentTime = currentTime' := by
  have hnames : ∀ q ∈ furtherParameters (bytesOf uid.text) currentTime ++
      furtherParameters (bytesOf uid'.text) currentTime',
      charByte '&' ∉ q.1 ∧ charByte '=' ∉ q.1 := by
    intro q hq
    rcases List.mem_append.mp hq with hq | hq
    · exact further_names_free q hq
    · exact further_names_free q hq
  have hvalues : ∀ q ∈ furtherParameters (bytesOf uid.text) currentTime ++
      furtherParameters (bytesOf uid'.text) currentTime', charByte '&' ∉ q.2 := by
    intro q hq hmem
    have hunreserved : Unreserved (charByte '&') := by
      rcases List.mem_append.mp hq with hq | hq
      · exact unreserved_furtherParameters uid currentTime q hq _ hmem
      · exact unreserved_furtherParameters uid' currentTime' q hq _ hmem
    rw [← isEscaped_eq_false_iff] at hunreserved
    exact absurd hunreserved (by decide)
  obtain ⟨hkey, hfurther⟩ := joined_cons_inj h (by decide) (List.cons_ne_nil _ _) rfl hnames hvalues
  have hpairs := congrArg (List.map Prod.snd) hfurther
  simp only [furtherParameters, List.map_cons, List.cons.injEq, true_and] at hpairs
  obtain ⟨huid, htime, -⟩ := hpairs
  exact ⟨(List.cons.inj (List.append_cancel_left hkey)).2,
    bytesOf_inj uid.chars uid'.chars huid,
    decimal_injective (bytesOf_inj isPlain_decimal isPlain_decimal htime)⟩

theorem baseOf_inj {url url' : List (BitVec 8)} {params params' : List (Parameter (BitVec 8))}
    (h : baseOf url params = baseOf url' params') :
    url = url' ∧ joined (charByte '&') (charByte '=') params =
      joined (charByte '&') (charByte '=') params' := by
  have hfree : ∀ text, Free (· == charByte '&') (encode text) := by
    intro text x hx
    rw [beq_eq_false_iff_ne]
    rintro rfl
    exact notMem_encode (by decide) (by decide) text hx
  have hstops : ∀ rest, Stops (· == charByte '&') (paramAdd ++ rest) :=
    fun rest => stops_cons (by simp) rest
  simp only [baseOf, List.append_assoc, List.append_cancel_left_eq] at h
  obtain ⟨hurl, hquery⟩ := append_inj_of_free (hfree url) (hfree url') (hstops _) (hstops _) h
  exact ⟨encode_injective hurl, encode_injective (List.append_cancel_left hquery)⟩

/-! ## Results -/

section Results

variable (fresh : Vector (BitVec 32) 64) (key secret url : List (BitVec 8)) (uid : Uuid)
  (currentTime : ℤ)

/-- **A header is read back.** Whatever the key, the secret and the URL hold, the values of the
header are decoded to the key, the nonce, the method, the time and the version, and the signature
behind them to the keyed hash of the text that these make. -/
theorem header_reads_back :
    ∃ header signature, generateHeader fresh key secret url uid currentTime = some header ∧
      header.take 6 = bytesOf "OAuth ".toList ∧
      readParameters header = signedParameters key (bytesOf uid.text) currentTime ++
        [(oauthSignature, signature)] ∧
      Base64.base64Decode signature [] true = some (true,
        hmac digest 64 (encodeKey secret) (baseOf url (readParameters header).dropLast)) := by
  refine ⟨_, _, generateHeader_eq fresh key secret url uid currentTime, ?_,
    readParameters_authorization .., ?_⟩
  · rw [authorization_eq]
    exact List.take_left' length_scheme
  · rw [readParameters_authorization, headerParameters, List.dropLast_concat, signatureOf,
      Base64Codec.base64Decode_base64Encode]
    rfl

/-- **The signed text says what it is for.** Two sign-ins sign the same text only if URL, key,
nonce and time are the same. -/
theorem signatureBase_inj_iff (url' key' : List (BitVec 8)) (uid' : Uuid) (currentTime' : ℤ) :
    signatureBase url key (bytesOf uid.text) currentTime =
        signatureBase url' key' (bytesOf uid'.text) currentTime' ↔
      url = url' ∧ key = key' ∧ uid.text = uid'.text ∧ currentTime = currentTime' := by
  constructor
  · intro h
    rw [signatureBase_eq, signatureBase_eq] at h
    obtain ⟨hurl, hquery⟩ := baseOf_inj h
    exact ⟨hurl, signedParameters_inj hquery⟩
  · rintro ⟨rfl, rfl, huid, rfl⟩
    rw [huid]

/-- **The values are signed as they stand in the header** if and only if the key has nothing to
encode. -/
theorem signed_as_sent_iff :
    ∃ header, generateHeader fresh key secret url uid currentTime = some header ∧
      (signatureBase url key (bytesOf uid.text) currentTime =
          baseOf url (sentParameters header).dropLast ↔
        ∀ c ∈ key, Unreserved c) := by
  refine ⟨_, generateHeader_eq fresh key secret url uid currentTime, ?_⟩
  have hfurther : (furtherParameters (bytesOf uid.text) currentTime).map
      (fun p => (p.1, encode p.2)) = furtherParameters (bytesOf uid.text) currentTime := by
    conv_rhs => rw [← List.map_id (furtherParameters (bytesOf uid.text) currentTime)]
    refine List.map_congr_left fun p hp => ?_
    exact Prod.ext rfl (encode_of_unreserved (unreserved_furtherParameters uid currentTime p hp))
  have hsent : (sentParameters (authorization key (bytesOf uid.text)
      (signatureOf secret url (signedParameters key (bytesOf uid.text) currentTime))
      currentTime)).dropLast = signedParameters (encode key) (bytesOf uid.text) currentTime := by
    rw [sentParameters_authorization, headerParameters, List.map_append, List.map_singleton,
      List.dropLast_concat, signedParameters, List.map_cons, hfurther]
    rfl
  rw [hsent, signatureBase_eq]
  constructor
  · intro h
    have hkey := (signedParameters_inj (baseOf_inj h).2).1
    by_contra hnot
    have hlt := length_lt_length_encode hnot
    rw [← hkey] at hlt
    exact absurd hlt (Nat.lt_irrefl _)
  · intro h
    rw [encode_of_unreserved h]

end Results

end OlpEdgeSdk.Analysis.OAuthHeaders

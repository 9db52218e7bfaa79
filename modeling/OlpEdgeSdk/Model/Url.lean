import OlpEdgeSdk.Base.WhileLoops
import OlpEdgeSdk.Model.NetworkUtils

/-!
# Percent coding of URLs

`Url::Encode` and `Url::Decode`. A string is a list of bytes; a `char` is signed, an
`unsigned int` has thirty-two bits and a size has sixty-four. The decoder keeps its place in an
`unsigned int` and the encoder in a `size_t`.

SOURCE: Url.cpp
-/

set_option autoImplicit false

namespace OlpEdgeSdk.Model.Url

open OlpEdgeSdk.Base
open OlpEdgeSdk.Model.NetworkUtils (sizeSub)

/-- The byte of a character of the source. -/
def charByte (c : Char) : BitVec 8 := BitVec.ofNat 8 c.toNat

/-- `operator[]` of a string: at the size it is the terminating null. -/
def byteAt (str : List (BitVec 8)) (i : ℕ) : Except StringFault (BitVec 8) :=
  match str[i]? with
  | some c => .ok c
  | none => if i = str.length then .ok 0 else .error .readPast

/-! ## Decode -/

/-- What a hexadecimal digit stands for. -/
def hexValue? (c : BitVec 8) : Option ℕ :=
  if charByte '0' ≤ c ∧ c ≤ charByte '9' then some (c.toNat - '0'.toNat)
  else if charByte 'A' ≤ c ∧ c ≤ charByte 'F' then some (c.toNat - 'A'.toNat + 10)
  else if charByte 'a' ≤ c ∧ c ≤ charByte 'f' then some (c.toNat - 'a'.toNat + 10)
  else none

/-- `std::isxdigit` of the byte as an unsigned one.
SOURCE: Url.cpp:38-40 -/
def isHexDigit (c : BitVec 8) : Bool := (hexValue? c).isSome

/-- A hexadecimal number is read from a text, up to the first other character. The texts here
have two digits and a null behind them.
SOURCE: Url.cpp:44-50 -/
def hexToUint (hexStr : List (BitVec 8)) : ℕ :=
  (hexStr.takeWhile isHexDigit).foldl (fun n c => 16 * n + (hexValue? c).getD 0) 0

/-- `read_idx` and `out`. -/
structure DecodeState where
  readIdx : ℕ
  out : List (BitVec 8)
deriving DecidableEq, Repr

/-- An `unsigned int` and one more. -/
def incremented (i : ℕ) : ℕ := (i + 1) % 4294967296

/-- The test for a group; the bytes behind are read only if those before are right.
SOURCE: Url.cpp:64-65 -/
def startsGroup (input : List (BitVec 8)) (readIdx : ℕ) : Except StringFault Bool := do
  if readIdx < sizeSub input.length 2 then
    let c ← byteAt input readIdx
    if c = charByte '%' then
      let high ← byteAt input (incremented readIdx)
      if isHexDigit high then
        let low ← byteAt input (incremented (incremented readIdx))
        return isHexDigit low
      else return false
    else return false
  else return false

/-- One turn of the loop.
SOURCE: Url.cpp:62-80 -/
def decodeTurn (input : List (BitVec 8)) (s : DecodeState) : Except StringFault DecodeState := do
  let group ← startsGroup input s.readIdx
  if group then
    let highIdx := incremented s.readIdx
    let high ← byteAt input highIdx
    let lowIdx := incremented highIdx
    let low ← byteAt input lowIdx
    return ⟨incremented lowIdx, s.out ++ [BitVec.ofNat 8 (hexToUint [high, low, 0])]⟩
  else
    let c ← byteAt input s.readIdx
    if c = charByte '+' then
      return ⟨incremented s.readIdx, s.out ++ [charByte ' ']⟩
    else
      return ⟨incremented s.readIdx, s.out ++ [c]⟩

/-- The guard of the loop; a fault ends it.
SOURCE: Url.cpp:62 -/
def decodeGuard (input : List (BitVec 8)) : Except StringFault DecodeState → Bool
  | .error _ => false
  | .ok s => s.readIdx < input.length

/-- The loop is entered at the front with nothing written, and what it has written at its end is
the result.
SOURCE: Url.cpp:56-82 -/
def decode (input : List (BitVec 8)) (fuel : ℕ) : Option (Except StringFault (List (BitVec 8))) :=
  (whileLoop (decodeGuard input) (fun s => s.bind (decodeTurn input)) fuel (.ok ⟨0, []⟩)).map
    fun s => s.map DecodeState.out

/-! ## Encode -/

/-- An upper case hexadecimal digit of `snprintf`. -/
def upperDigit (n : ℕ) : BitVec 8 :=
  if n < 10 then BitVec.ofNat 8 ('0'.toNat + n) else BitVec.ofNat 8 ('A'.toNat + (n - 10))

/-- The characters are compared as signed ones.
SOURCE: Url.cpp:99-102 -/
def isEscaped (currentChar : BitVec 8) : Bool :=
  (currentChar.toInt < (charByte 'a').toInt ∨ (charByte 'z').toInt < currentChar.toInt) ∧
    (currentChar.toInt < (charByte 'A').toInt ∨ (charByte 'Z').toInt < currentChar.toInt) ∧
    (currentChar.toInt < (charByte '0').toInt ∨ (charByte '9').toInt < currentChar.toInt) ∧
    currentChar ≠ charByte '.' ∧ currentChar ≠ charByte '-' ∧ currentChar ≠ charByte '~' ∧
    currentChar ≠ charByte '_'

/-- What is added for a character: an `unsigned char` has two hexadecimal digits.
SOURCE: Url.cpp:99-109 -/
def encodeChar (currentChar : BitVec 8) : List (BitVec 8) :=
  if isEscaped currentChar then
    [charByte '%', upperDigit (currentChar.toNat / 16), upperDigit (currentChar.toNat % 16)]
  else [currentChar]

/-- SOURCE: Url.cpp:90-113 -/
def encode (input : List (BitVec 8)) : List (BitVec 8) :=
  input.foldl (fun out currentChar => out ++ encodeChar currentChar) []

end OlpEdgeSdk.Model.Url

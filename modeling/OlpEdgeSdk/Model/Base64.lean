import OlpEdgeSdk.Base.Regroup
import OlpEdgeSdk.Model.Url

/-!
# Base64

The iterators that the code puts together regroup the bits of their input: `transform_width`
from bytes to words of six bits fills the last word up with zeros, and the one back drops an
incomplete last byte. `base64_from_binary` and `binary_from_base64` look a word up in the
alphabet; the latter throws on a character that is not in it. A call has no result where it
throws or writes behind the end of a vector.

SOURCE: Base64.cpp, Base64.h
-/

set_option autoImplicit false

namespace OlpEdgeSdk.Model.Base64

open OlpEdgeSdk.Base
open OlpEdgeSdk.Model.Url (charByte)

/-- The table of `base64_from_binary`. -/
def alphabet : List (BitVec 8) :=
  "ABCDEFGHIJKLMNOPQRSTUVWXYZabcdefghijklmnopqrstuvwxyz0123456789+/".toList.map charByte

/-- `base64_from_binary` -/
def base64FromBinary (word : BitVec 6) : BitVec 8 := alphabet.getD word.toNat 0

/-- `binary_from_base64` -/
def binaryFromBase64 (c : BitVec 8) : Option (BitVec 6) :=
  (alphabet.findIdx? (· = c)).map (BitVec.ofNat 6)

/-- The characters are compared as signed ones.
SOURCE: Base64.cpp:32-35 -/
def notBase64Symbol (c : BitVec 8) : Bool :=
  ¬ (((charByte '/').toInt ≤ c.toInt ∧ c.toInt ≤ (charByte '9').toInt) ∨
    ((charByte 'A').toInt ≤ c.toInt ∧ c.toInt ≤ (charByte 'Z').toInt) ∨
    ((charByte 'a').toInt ≤ c.toInt ∧ c.toInt ≤ (charByte 'z').toInt) ∨ c = charByte '+')

/-- The end of a text without its padding, which is looked for in the last two characters. The
validator and the decoder both do this.
SOURCE: Base64.cpp:49-56, 107-117 -/
def endNoPadding (s : List (BitVec 8)) : ℕ :=
  let len := s.length
  if s[len - 1]? = some (charByte '=') then
    if s[len - 2]? = some (charByte '=') then len - 2 else len - 1
  else len

/-- SOURCE: Base64.cpp:37-62 -/
def isValidBase64 (s : List (BitVec 8)) : Bool :=
  let len := s.length
  if len = 0 then true
  else if len % 4 ≠ 0 then false
  else
    let notBase64 := (s.take (endNoPadding s)).findIdx notBase64Symbol
    notBase64 = endNoPadding s

/-- SOURCE: Base64.cpp:66-87 -/
def base64Encode (bytes : List (BitVec 8)) : List (BitVec 8) :=
  let size := bytes.length
  if size = 0 then []
  else
    let tmp := (Regroup.packed 6 bytes).map base64FromBinary
    tmp ++ List.replicate ((3 - size % 3) % 3) (charByte '=')

/-- The vector after the call, beside what is returned. It is resized before bytes are copied
to it, and cut off behind them.
SOURCE: Base64.cpp:89-126 -/
def base64Decode (s bytes : List (BitVec 8)) (writeNullBytes : Bool) :
    Option (Bool × List (BitVec 8)) :=
  if s.isEmpty then some (true, [])
  else if ¬ isValidBase64 s then some (false, bytes)
  else do
    let words ← (s.take (endNoPadding s)).mapM binaryFromBase64
    let decoded := Regroup.whole 8 words
    let copied := if writeNullBytes then decoded else decoded.filter (· ≠ 0)
    if copied.length ≤ s.length / 4 * 3 then some (true, copied) else none

end OlpEdgeSdk.Model.Base64

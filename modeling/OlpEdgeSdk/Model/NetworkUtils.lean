import Mathlib.Data.Char
import OlpEdgeSdk.Base.Decimal

/-!
# Strings as the network layer reads them

`NetworkUtils` and what it uses of `std::string`: reads by index, which must stay at or before
the terminating null, `substr`, and the conversions to numbers, which throw.

SOURCE: olp-cpp-sdk-core/src/network/NetworkUtils.cpp
-/

set_option autoImplicit false

namespace OlpEdgeSdk.Model

open OlpEdgeSdk.Base

/-- What a call can come to grief with: a read past the terminating null, or an exception of
the standard library. -/
inductive StringFault where
  | readPast
  | outOfRange
  | invalidArgument
deriving DecidableEq, Repr

namespace NetworkUtils

/-- `operator[]` of a string: at the size it is the terminating null. -/
def charAt (str : List Char) (i : ℕ) : Except StringFault Char :=
  match str[i]? with
  | some c => .ok c
  | none => if i = str.length then .ok (Char.ofNat 0) else .error .readPast

/-- `substr` from a position to the end. -/
def substr (str : List Char) (pos : ℕ) : Except StringFault (List Char) :=
  if pos ≤ str.length then .ok (str.drop pos) else .error .outOfRange

/-- A number at the start of a text, which has to fit the type. -/
def stringTo (low high : ℤ) (text : List Char) : Except StringFault ℤ :=
  match readDecimal text with
  | none => .error .invalidArgument
  | some n => if low ≤ n ∧ n ≤ high then .ok n else .error .outOfRange

/-- `std::stoi`. -/
def stoi : List Char → Except StringFault ℤ := stringTo (-2147483648) 2147483647

/-- `std::stoll`. -/
def stoll : List Char → Except StringFault ℤ := stringTo (-9223372036854775808) 9223372036854775807

/-- The difference of two sizes, which are unsigned. -/
def sizeSub (a b : ℕ) : ℕ := if b ≤ a then a - b else a + 18446744073709551616 - b

/-- `SimpleToUpper`.
SOURCE: NetworkUtils.cpp:26-28 -/
def simpleToUpper (c : Char) : Char :=
  if 'a' ≤ c ∧ c ≤ 'z' then Char.ofNat (c.toNat - 'a'.toNat + 'A'.toNat) else c

/-- The loop of `CaseInsensitiveStartsWith`, from the character it has come to.
SOURCE: NetworkUtils.cpp:44-46 -/
def startsWithLoop (str1 : List Char) : ℕ → List Char → Except StringFault Bool
  | _, [] => .ok true
  | i, c :: str2 => do
    let d ← charAt str1 i
    if simpleToUpper d ≠ simpleToUpper c then return false
    startsWithLoop str1 (i + 1) str2

/-- `CaseInsensitiveStartsWith`.
SOURCE: NetworkUtils.cpp:40-48 -/
def caseInsensitiveStartsWith (str1 str2 : List Char) (offset : ℕ) : Except StringFault Bool :=
  if sizeSub str1.length offset < str2.length then .ok false
  else startsWithLoop str1 offset str2

/-- The loop of `CaseInsensitiveFind`, with the turns it has left: from the offset to the
difference of the two lengths.
SOURCE: NetworkUtils.cpp:53-58 -/
def findLoop (str1 str2 : List Char) : ℕ → ℕ → Except StringFault (Option ℕ)
  | 0, _ => .ok none
  | turns + 1, offset => do
    let c ← charAt str1 offset
    let d ← charAt str2 0
    if simpleToUpper c = simpleToUpper d then
      if ← caseInsensitiveStartsWith str1 str2 offset then return some offset
    findLoop str1 str2 turns (offset + 1)

/-- `CaseInsensitiveFind`; `none` is `npos`.
SOURCE: NetworkUtils.cpp:50-60 -/
def caseInsensitiveFind (str1 str2 : List Char) (offset : ℕ) : Except StringFault (Option ℕ) :=
  findLoop str1 str2 (sizeSub str1.length str2.length - offset) offset

end NetworkUtils

end OlpEdgeSdk.Model

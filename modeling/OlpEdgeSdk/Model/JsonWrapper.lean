import Mathlib.Algebra.Order.Ring.Int
import OlpEdgeSdk.Base.Json
import OlpEdgeSdk.Base.Rounding

/-!
# Serializers and parsers

`serialize` adds a member to the object being built unless its value is null; `parse` reads the
first member of a name, and makes do with a default where there is none. No result (`none`) is
an assertion of the JSON library that fails, or a conversion that is undefined. An object being
built is the list of its members. The names of members are literals without a null.

SOURCE: SerializerWrapper.h, ParserWrapper.h, JsonSerializer.h, JsonParser.h
-/

set_option autoImplicit false

namespace OlpEdgeSdk.Model

open OlpEdgeSdk.Base

/-- The overloads of `to_json`. -/
class ToJson (α : Type) where
  toJson : α → Json

/-- The overloads of `from_json`, and the value that `T()` makes. -/
class FromJson (α : Type) where
  fromJson : Json → Option α
  blank : α

export ToJson (toJson)
export FromJson (fromJson)

/-! ## Values -/

/-- SOURCE: SerializerWrapper.h:31-35 -/
instance : ToJson (List Char) where
  toJson x := .string (Json.cString x)

/-- SOURCE: ParserWrapper.h:31-33 -/
instance : FromJson (List Char) where
  fromJson
    | .string text => some (Json.cString text)
    | _ => none
  blank := []

/-- SOURCE: SerializerWrapper.h:37-41 -/
instance : ToJson Int64 where
  toJson x := .int x.toInt

/-- SOURCE: ParserWrapper.h:35-37 -/
instance : FromJson Int64 where
  fromJson
    | .int n => if -2 ^ 63 ≤ n ∧ n < 2 ^ 63 then some (Int64.ofInt n) else none
    | _ => none
  blank := 0

/-- SOURCE: SerializerWrapper.h:48-52 -/
instance : ToJson Bool where
  toJson x := .bool x

/-- SOURCE: ParserWrapper.h:43-45 -/
instance : FromJson Bool where
  fromJson
    | .bool b => some b
    | _ => none
  blank := false

/-- The double nearest to an integer. -/
def doubleOfInt (n : Int) : Int :=
  if 0 ≤ n then roundTo 53 n.natAbs else -roundTo 53 n.natAbs

/-- A finite double is the number it stands for.
SOURCE: ParserWrapper.h:39-41 -/
instance : FromJson Rat where
  fromJson
    | .int n => some (doubleOfInt n)
    | .double x => some x
    | _ => none
  blank := 0

/-- `static_cast<int64_t>`, which is undefined for a double out of range. -/
def castInt64 (x : Rat) : Option Int64 :=
  let whole := x.num.tdiv x.den
  if -2 ^ 63 ≤ whole ∧ whole < 2 ^ 63 then some (Int64.ofInt whole) else none

/-- A byte of a text as a character. -/
def charOfByte (b : UInt8) : Char := Char.ofNat b.toNat

def byteOfChar (c : Char) : UInt8 := UInt8.ofNat c.toNat

/-- The bytes behind a pointer, or the null pointer.
SOURCE: ParserWrapper.h:47-51 -/
instance : FromJson (Option (List UInt8)) where
  fromJson
    | .string text => some (some ((Json.cString text).map byteOfChar))
    | _ => none
  blank := none

section Containers

variable {α : Type}

/-- SOURCE: SerializerWrapper.h:61-70 -/
instance [ToJson α] : ToJson (Option α) where
  toJson
    | some x => toJson x
    | none => .null

/-- SOURCE: ParserWrapper.h:53-58 -/
instance [FromJson α] : FromJson (Option α) where
  fromJson value := (fromJson value).map some
  blank := none

/-- SOURCE: SerializerWrapper.h:85-96 -/
instance [ToJson α] : ToJson (List α) where
  toJson x := .array (x.map toJson)

/-- SOURCE: ParserWrapper.h:71-79 -/
instance [FromJson α] : FromJson (List α) where
  fromJson
    | .array items => items.mapM fromJson
    | _ => none
  blank := []

/-! ## Members -/

/-- SOURCE: SerializerWrapper.h:98-110 -/
def serialize [ToJson α] (key : String) (x : α) (members : List (String × Json)) :
    List (String × Json) :=
  if (toJson x).isNull then members else members ++ [(key, toJson x)]

/-- SOURCE: ParserWrapper.h:81-89 -/
def parse [FromJson α] (value : Json) (name : String) : Option α :=
  match value with
  | .object members =>
    match Json.findMember name members with
    | some found => fromJson found
    | none => some FromJson.blank
  | _ => none

/-! ## Texts -/

/-- The writer and the parser of the JSON library; a text that does not parse gives null. -/
structure JsonText where
  write : Json → List Char
  read : List Char → Json

/-- SOURCE: JsonSerializer.h:29-40 -/
def serializeText [ToJson α] (text : JsonText) (object : α) : List Char :=
  text.write (toJson object)

/-- SOURCE: JsonParser.h:27-36 -/
def parseText [FromJson α] (text : JsonText) (json : List Char) : Option α :=
  match text.read (Json.cString json) with
  | .object members => fromJson (.object members)
  | .array items => fromJson (.array items)
  | _ => some FromJson.blank

end Containers

end OlpEdgeSdk.Model

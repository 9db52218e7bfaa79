import Mathlib.Data.Char
import OlpEdgeSdk.Base.Assoc

/-!
# Log filter groups

`FilterGroup`, the levels of the log by tag, and the parser of its files. A file is read line by
line into a buffer of a fixed size, and the line is taken from the buffer as a C string.

SOURCE: olp-cpp-sdk-core/src/logging/FilterGroup.cpp
-/

set_option autoImplicit false

namespace OlpEdgeSdk.Model

open OlpEdgeSdk.Base

/-- SOURCE: Level.h:27 -/
inductive Level where
  | trace
  | debug
  | info
  | warning
  | error
  | fatal
  | off
deriving DecidableEq, Repr

/-- SOURCE: FilterGroup.h:133-134 -/
structure FilterGroup where
  defaultLevel : Option Level
  tagLevels : List (List Char × Level)
deriving DecidableEq, Repr

namespace FilterGroup

/-! ## Streams -/

/-- `std::istream`: the characters that are left, and its flags. -/
structure Stream where
  rest : List Char
  eof : Bool
  fail : Bool
deriving DecidableEq, Repr

/-- `istream::getline` into a buffer of a size: what is put in front of the null, and the
stream. A line that fills the buffer sets the flag for a failure, as does one without a
character. -/
def getline (size : ℕ) (stream : Stream) : List Char × Stream :=
  if stream.eof || stream.fail then ([], { stream with fail := true })
  else
    let line := (stream.rest.takeWhile (· ≠ '\n')).take (size - 1)
    match stream.rest.drop line.length with
    | [] => (line, ⟨[], true, line.isEmpty⟩)
    | c :: rest =>
      if c = '\n' then (line, ⟨rest, false, false⟩) else (line, ⟨c :: rest, false, true⟩)

/-- A buffer as a C string: it ends at the first null. -/
def cString (buffer : List Char) : List Char := buffer.takeWhile (· ≠ Char.ofNat 0)

/-! ## Lines -/

/-- `split`.
SOURCE: FilterGroup.cpp:33-40 -/
def split (str : List Char) (c : Char) : List Char × List Char :=
  match str.findIdx? (· = c) with
  | none => (str, [])
  | some index => (str.take index, str.drop (index + 1))

/-- The characters that `trim` removes.
SOURCE: FilterGroup.cpp:43 -/
def whitespace : List Char := [' ', '\n', '\r', '\t', '\x0c', '\x0b']

/-- `find_last_not_of`, for a text that has such a character. -/
def findLastNotOf (str chars : List Char) : ℕ :=
  str.length - 1 - str.reverse.findIdx fun c => !chars.contains c

/-- `trim`.
SOURCE: FilterGroup.cpp:42-51 -/
def trim (str : List Char) : List Char :=
  match str.findIdx? fun c => !whitespace.contains c with
  | none => []
  | some first => (str.drop first).take (findLastNotOf str whitespace - first + 1)

/-- `equalsIgnoreCase`: `strcasecmp` of the C strings.
SOURCE: FilterGroup.cpp:53-60 -/
def equalsIgnoreCase (left right : List Char) : Bool :=
  (cString left).map Char.toLower = (cString right).map Char.toLower

/-- `stringToLevel`.
SOURCE: FilterGroup.cpp:62-79 -/
def stringToLevel (levelStr : List Char) : Option Level :=
  if equalsIgnoreCase levelStr "trace".toList then some .trace
  else if equalsIgnoreCase levelStr "debug".toList then some .debug
  else if equalsIgnoreCase levelStr "info".toList then some .info
  else if equalsIgnoreCase levelStr "warning".toList then some .warning
  else if equalsIgnoreCase levelStr "error".toList then some .error
  else if equalsIgnoreCase levelStr "fatal".toList then some .fatal
  else if equalsIgnoreCase levelStr "off".toList then some .off
  else none

/-! ## Loading -/

/-- `clear`.
SOURCE: FilterGroup.h:180-184 -/
def clear : FilterGroup := ⟨none, []⟩

/-- `getLevel` of a tag.
SOURCE: FilterGroup.h:163-168 -/
def getLevel (group : FilterGroup) (tag : List Char) : Option Level :=
  Assoc.valueOf group.tagLevels tag

/-- The body of the loop of `load`, for what is in the buffer; none is the return of false.
SOURCE: FilterGroup.cpp:95-108 -/
def loadLine (group : FilterGroup) (buffer : List Char) : Option FilterGroup :=
  let line := trim (cString buffer)
  if line.isEmpty || line.head? = some '#' then some group
  else
    let splitLine := split line ':'
    let tag := trim splitLine.1
    let levelStr := trim splitLine.2
    match stringToLevel levelStr with
    | none => none
    | some level =>
      if tag.isEmpty then some { group with defaultLevel := some level }
      else some { group with tagLevels := Assoc.put group.tagLevels tag level }

/-- The size of the buffer.
SOURCE: FilterGroup.cpp:92 -/
def bufferSize : ℕ := 1024

/-- The loop of `load`, with a bound on its turns: what is returned, and the group.
SOURCE: FilterGroup.cpp:94-111 -/
def loadLoop : ℕ → Stream → FilterGroup → Option (Bool × FilterGroup)
  | 0, _, _ => none
  | fuel + 1, stream, group =>
    let (buffer, stream) := getline bufferSize stream
    if stream.fail then some (true, group)
    else
      match loadLine group buffer with
      | none => some (false, group)
      | some group => loadLoop fuel stream group

/-- `load` of a stream that has a text.
SOURCE: FilterGroup.cpp:90-112 -/
def load (fuel : ℕ) (text : List Char) : Option (Bool × FilterGroup) :=
  loadLoop fuel ⟨text, false, false⟩ clear

end FilterGroup

end OlpEdgeSdk.Model

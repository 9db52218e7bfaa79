import Mathlib.Data.Int.Order.Basic
import OlpEdgeSdk.Base.WhileLoops

/-!
# Formatting a time

`FormatBuffer`, as far as it formats times: a buffer of its own, and one that grows when the
text does not fit. The conversions of the C library are parameters.

SOURCE: olp-cpp-sdk-core/src/logging/Format.cpp
-/

set_option autoImplicit false

namespace OlpEdgeSdk.Model

open OlpEdgeSdk.Base

/-- What the C library makes of times: the broken-down time of a number of seconds, local and
in UTC, and the expansion of a format for one. -/
class TimeLibrary (Tm : Type) where
  localtime : ℤ → Tm
  gmtime : ℤ → Tm
  expansion : List Char → Tm → List Char

namespace FormatBuffer

/-- A buffer: its size, and the text that it has been left with, which is not known after a
call that did not fit. -/
structure Buffer where
  size : ℕ
  text : Option (List Char)
deriving DecidableEq, Repr

/-- SOURCE: Format.h:165 -/
def bufferSize : ℕ := 256

variable {Tm : Type} [TimeLibrary Tm]

/-- `strftime`: the length of the expansion if it fits with its terminating null, else zero. -/
def strftime (buffer : Buffer) (formatStr : List Char) (timestampTm : Tm) : Buffer × ℕ :=
  let text := TimeLibrary.expansion formatStr timestampTm
  if text.length + 1 ≤ buffer.size then (⟨buffer.size, some text⟩, text.length)
  else (⟨buffer.size, none⟩, 0)

/-- The buffer is doubled for the next try.
SOURCE: Format.cpp:179 -/
def growTurn (formatStr : List Char) (timestampTm : Tm) (auxBuffer : Buffer) : Buffer :=
  ⟨auxBuffer.size * 2, (strftime auxBuffer formatStr timestampTm).1.text⟩

/-- The try in the buffer has come to nothing.
SOURCE: Format.cpp:174-176 -/
def growGuard (formatStr : List Char) (timestampTm : Tm) (auxBuffer : Buffer) : Bool :=
  (strftime auxBuffer formatStr timestampTm).2 = 0

/-- `formatTm`, with a bound on the turns of its loop: the text returned.
SOURCE: Format.cpp:166-181 -/
def formatTm (fuel : ℕ) (timestampTm : Tm) (formatStr : List Char) : Option (List Char) :=
  let first := strftime ⟨bufferSize, none⟩ formatStr timestampTm
  if first.2 ≠ 0 then first.1.text
  else
    (whileLoop (growGuard formatStr timestampTm) (growTurn formatStr timestampTm) fuel
      ⟨bufferSize * 2, none⟩).bind fun auxBuffer =>
        (strftime auxBuffer formatStr timestampTm).1.text

/-- `toTimeT`, for a clock of so many ticks a second: the seconds, truncated.
SOURCE: Format.cpp:59-67 -/
def toTimeT (ticks : ℤ) (timestamp : ℤ) : ℤ := timestamp.tdiv ticks

/-- `formatLocalTime`.
SOURCE: Format.cpp:136-147 -/
def formatLocalTime (fuel : ℕ) (ticks timestamp : ℤ) (formatStr : List Char) :
    Option (List Char) :=
  formatTm fuel (TimeLibrary.localtime (toTimeT ticks timestamp) : Tm) formatStr

/-- `formatUtcTime`.
SOURCE: Format.cpp:153-164 -/
def formatUtcTime (fuel : ℕ) (ticks timestamp : ℤ) (formatStr : List Char) :
    Option (List Char) :=
  formatTm fuel (TimeLibrary.gmtime (toTimeT ticks timestamp) : Tm) formatStr

end FormatBuffer

end OlpEdgeSdk.Model

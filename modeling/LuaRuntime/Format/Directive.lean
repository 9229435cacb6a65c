/-!
# Format strings

A format string is a list of segments: literal texts, and directives that write a value.
A directive says which value it writes, how wide the field is and how the value is
converted.  The value is the next one, the one at a given position, or a field of the
first one reached by a path.
-/

namespace LuaRuntime

/-- The flags of a directive. -/
structure Flags where
  /-- The value stands at the left of its field. -/
  left : Bool := false
  /-- A number that is not negative has a plus sign. -/
  plus : Bool := false
  /-- A number that is not negative has a space for a sign. -/
  space : Bool := false
  /-- The field is filled with zeros. -/
  zero : Bool := false
  /-- The alternate layout of the conversion. -/
  alternate : Bool := false
deriving Repr, DecidableEq

/-- Which value a directive writes. -/
inductive Reference where
  /-- The next one that no directive has written. -/
  | next
  /-- The one at a position, counted from 1. -/
  | position (n : Nat)
  /-- A field of the first one, by a path. -/
  | path (fields : List String)
deriving Repr, DecidableEq

/-- How a value is written. -/
inductive Conversion where
  | char
  | integer
  | octal
  | unsigned
  | hexadecimal (upper : Bool)
  | exponent (upper : Bool)
  | fixed
  | general (upper : Bool)
  | text
  | quoted
deriving Repr, DecidableEq

namespace Conversion

/-- The conversion a letter stands for. -/
def ofLetter? : Char → Option Conversion
  | 'c' => some .char
  | 'd' => some .integer
  | 'i' => some .integer
  | 'o' => some .octal
  | 'u' => some .unsigned
  | 'x' => some (.hexadecimal false)
  | 'X' => some (.hexadecimal true)
  | 'e' => some (.exponent false)
  | 'E' => some (.exponent true)
  | 'f' => some .fixed
  | 'g' => some (.general false)
  | 'G' => some (.general true)
  | 's' => some .text
  | 'q' => some .quoted
  | _ => none

/-- Whether a conversion writes a sign before a number that is not negative when a flag
asks for one. -/
def isSigned : Conversion → Bool
  | .integer | .exponent _ | .fixed | .general _ => true
  | _ => false

end Conversion

/-- A directive. -/
structure Directive where
  /-- The value it writes. -/
  reference : Reference
  /-- Its flags. -/
  flags : Flags
  /-- The least width of the field. -/
  width : Option Nat
  /-- The precision, whose meaning depends on the conversion. -/
  precision : Option Nat
  /-- The conversion. -/
  conversion : Conversion
deriving Repr, DecidableEq

/-- A segment of a format string. -/
inductive Segment where
  | literal (text : List Char)
  | directive (d : Directive)
deriving Repr, DecidableEq

/-- A format string that has been read. -/
structure Format where
  /-- The segments, in order. -/
  segments : List Segment
deriving Repr, DecidableEq

end LuaRuntime

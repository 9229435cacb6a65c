import LuaRuntime.Error
import LuaRuntime.Format.Directive
import LuaRuntime.Number.Decimal

/-!
# Fields of a formatted text

The text of one directive: the digits of a number, its sign and the fill of the field.

A number is laid out as a sign, a prefix and digits.  The fill is spaces at the left,
spaces at the right, or zeros between the prefix and the digits.  An integer with a
precision, and a number that is not finite, are never filled with zeros.

`quote` writes a string between double quotes so that it reads back as the same string.
-/

namespace LuaRuntime

namespace Field

/-! ## Fill -/

/-- As many copies of a character as a field has room for. -/
def fill (c : Char) (width : Option Nat) (length : Nat) : List Char :=
  List.replicate (width.getD 0 - length) c

/-- A text in its field. -/
def padText (d : Directive) (text : List Char) : List Char :=
  let spaces := fill ' ' d.width text.length
  if d.flags.left then text ++ spaces else spaces ++ text

/-- The sign of a number. -/
def sign (d : Directive) (negative : Bool) : List Char :=
  if negative then ['-']
  else if d.flags.plus && d.conversion.isSigned then ['+']
  else if d.flags.space && d.conversion.isSigned then [' ']
  else []

/-- A number in its field. -/
def padNumber (d : Directive) (negative : Bool) (lead digits : List Char) (zeros : Bool) :
    List Char :=
  let head := sign d negative ++ lead
  let length := head.length + digits.length
  if d.flags.left then head ++ digits ++ fill ' ' d.width length
  else if d.flags.zero && zeros then head ++ fill '0' d.width length ++ digits
  else fill ' ' d.width length ++ head ++ digits

/-! ## Integers -/

/-- The integer that a conversion to integers writes: the integer part, in the range of
64-bit integers.  It is zero for what is not a number. -/
def integerOf (x : Double) : Int :=
  match x.toInt? with
  | some i => Value.saturate i
  | none =>
      if x.isNaN then 0 else if x.isNegative then Value.leastInteger else Value.greatestInteger

/-- The same integer without its sign: a negative one counts from `2 ^ 64` down. -/
def unsignedOf (x : Double) : Nat := (integerOf x % Value.wordCount).toNat

/-- Digits of an integer, at least as many as the precision says.  Zero with the
precision zero has no digits. -/
def integerDigits (precision : Option Nat) (digits : List Char) : List Char :=
  match precision with
  | none => digits
  | some n => if n = 0 ∧ digits = ['0'] then [] else digits.leftpad n '0'

/-- Hexadecimal digits in upper or lower case. -/
def hexDigits (upper : Bool) (n : Nat) : List Char :=
  let digits := Nat.toDigits 16 n
  if upper then digits.map Char.toUpper else digits

/-- The field of an integer. -/
def integerField (d : Directive) (x : Double) : List Char :=
  let i := integerOf x
  padNumber d (i < 0) [] (integerDigits d.precision (Nat.toDigits 10 i.natAbs)) d.precision.isNone

/-- The field of an integer without its sign, with a prefix and digits. -/
def unsignedField (d : Directive) (lead digits : List Char) : List Char :=
  padNumber d false lead digits d.precision.isNone

/-- The field of an integer in base 8.  The alternate layout starts with a zero. -/
def octalField (d : Directive) (x : Double) : List Char :=
  let digits := integerDigits d.precision (Nat.toDigits 8 (unsignedOf x))
  let zero := if d.flags.alternate && digits.head? != some '0' then ['0'] else []
  unsignedField d [] (zero ++ digits)

/-- The field of an integer in base 16.  The alternate layout has a prefix unless the
integer is zero. -/
def hexField (d : Directive) (upper : Bool) (x : Double) : List Char :=
  let n := unsignedOf x
  let lead := if d.flags.alternate && n != 0 then ['0', if upper then 'X' else 'x'] else []
  unsignedField d lead (integerDigits d.precision (hexDigits upper n))

/-! ## Other numbers -/

/-- The field of a number, given the text of its magnitude. -/
def floatField (d : Directive) (x : Double) (magnitude : Double → String) : List Char :=
  padNumber d x.isNegative [] (magnitude x.abs).toList x.isFinite

/-- The digits of the fixed layout.  The alternate one keeps the point when there are no
decimals. -/
def fixedDigits (d : Directive) (x : Double) : String :=
  let decimals := d.precision.getD 6
  let text := Double.fixedText decimals x
  if d.flags.alternate && decimals == 0 && x.isFinite then text ++ "." else text

/-- The character of a code, if there is one. -/
def charOf? (code : Int) : Option Char :=
  if 0 ≤ code ∧ code.toNat.isValidChar then some (Char.ofNat code.toNat) else none

/-- The field of a number, for the conversions that take one. -/
def numberField (d : Directive) (x : Double) : Except ArgumentFault (List Char) :=
  match d.conversion with
  | .char =>
      match (Double.toInt? x).bind charOf? with
      | some c => .ok (padText d [c])
      | none => .error .valueOutOfRange
  | .integer => .ok (integerField d x)
  | .octal => .ok (octalField d x)
  | .unsigned =>
      .ok (unsignedField d [] (integerDigits d.precision (Nat.toDigits 10 (unsignedOf x))))
  | .hexadecimal upper => .ok (hexField d upper x)
  | .exponent upper => .ok (floatField d x (Double.exponentText (d.precision.getD 6) upper))
  | .fixed => .ok (floatField d x (fixedDigits d))
  | .general upper =>
      .ok (floatField d x (Double.generalText (d.precision.getD 6) upper d.flags.alternate))
  | .text | .quoted => .ok []

/-! ## Texts -/

/-- A character as it stands between double quotes. -/
def quoteChar : Char → List Char
  | '"' => ['\\', '"']
  | '\\' => ['\\', '\\']
  | '\n' => ['\\', '\n']
  | '\r' => ['\\', 'r']
  | '\x00' => ['\\', '0', '0', '0']
  | c => [c]

/-- A string between double quotes. -/
def quote (text : List Char) : List Char := '"' :: (text.flatMap quoteChar ++ ['"'])

/-- The field of a text, for the conversions that take one.  The precision cuts a text,
and a quoted one stays whole. -/
def textField (d : Directive) (text : List Char) : List Char :=
  match d.conversion with
  | .quoted => padText d (quote text)
  | _ =>
      match d.precision with
      | some n => padText d (text.take n)
      | none => padText d text

end Field

end LuaRuntime

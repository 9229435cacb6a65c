import LuaRuntime.Number.Arithmetic

/-!
# Reading numerals

`Numeral.parse?` reads the text of a number: blanks around it, a sign, and then either
`0x` with hexadecimal digits, or decimal digits with an optional point and an optional
exponent.  At least one digit must stand before the exponent.  The text of an infinity is
no numeral.

A decimal numeral is the double nearest to the value written, where an exponent is read no
further than the digit that takes it to `2 ^ 16`.  Hexadecimal digits, and the digits of any
other base (`Numeral.parseRadix?`), are gathered one by one in double arithmetic, so a
numeral too long for a double loses its low digits.
-/

namespace LuaRuntime

namespace Numeral

/-! ## Characters -/

/-- The blanks allowed around a numeral. -/
def isBlank (c : Char) : Bool :=
  c == ' ' || c == '\t' || c == '\n' || c == '\x0c' || c == '\r'

/-- The white space allowed around a numeral in a given base: every white space
character, not only those of the first 128. -/
def isSpace (c : Char) : Bool :=
  let n := c.toNat
  (0x9 ≤ n && n ≤ 0xd) || n == 0x20 || n == 0x85 || n == 0xa0 || n == 0x1680 ||
    (0x2000 ≤ n && n ≤ 0x200a) || n == 0x2028 || n == 0x2029 || n == 0x202f ||
    n == 0x205f || n == 0x3000

/-- A text without the characters of a class at both ends. -/
def trim (skip : Char → Bool) (text : List Char) : List Char :=
  ((text.dropWhile skip).reverse.dropWhile skip).reverse

/-- The value of a digit in a base up to 36.  Letters of either case follow the decimal
digits. -/
def digit? (base : Nat) (c : Char) : Option Nat :=
  let value? : Option Nat :=
    if '0' ≤ c ∧ c ≤ '9' then some (c.toNat - '0'.toNat)
    else if 'a' ≤ c ∧ c ≤ 'z' then some (c.toNat - 'a'.toNat + 10)
    else if 'A' ≤ c ∧ c ≤ 'Z' then some (c.toNat - 'A'.toNat + 10)
    else none
  value?.filter (· < base)

/-- The values of all the digits of a text, if it has nothing else. -/
def digits? (base : Nat) (text : List Char) : Option (List Nat) := text.mapM (digit? base)

/-! ## Values -/

/-- Digits gathered in double arithmetic, the first one being the most significant. -/
def gather (base : Nat) (digits : List Nat) : Double :=
  digits.foldl (fun sum digit => sum * Double.ofNat base + Double.ofNat digit) (Double.ofNat 0)

/-- Digits of a base, the least significant first, joined in pairs: digits of its square. -/
def joinPairs (base : Nat) : List Nat → List Nat
  | low :: high :: rest => (low + high * base) :: joinPairs base rest
  | rest => rest

/-- The natural number with some digits in a base, the least significant first.  Joining the
digits in pairs as often as `passes` says keeps the work small for a long numeral. -/
def joinDigits : (passes : Nat) → (base : Nat) → List Nat → Nat
  | 0, base, digits => digits.foldr (fun digit rest => digit + base * rest) 0
  | passes + 1, base, digits =>
      match digits with
      | [] => 0
      | [digit] => digit
      | digits => joinDigits passes (base * base) (joinPairs base digits)

/-- The natural number that digits of a base write, none if some character is no digit. -/
def naturalValue? (base : Nat) (text : List Char) : Option Nat :=
  text.foldlM (fun sum c => (digit? base c).map (base * sum + ·)) 0

/-- The natural number that decimal digits write. -/
def decimalValue (text : List Char) : Nat :=
  joinDigits (text.length.log2 + 1) 10 (text.reverse.map fun c => c.toNat - '0'.toNat)

/-- The double nearest to `significand * 10 ^ power`.  Powers far outside the range of a
double are decided without computing them. -/
def ofDecimal (significand : Nat) (power : Int) : Double :=
  if significand = 0 then Double.ofNat 0
  else if 400 < power then Double.infinity false
  else if power < -(significand.log2 + 400 : Int) then Double.ofNat 0
  else if 0 ≤ power then Double.ofRatio false (significand * Nat.pow 10 power.toNat) 1
  else Double.ofRatio false significand (Nat.pow 10 (-power).toNat)

/-- A value with a sign before it. -/
def signed (negative : Bool) (x : Double) : Double := if negative then -x else x

/-! ## Grammar -/

/-- An exponent that has reached this bound, `2 ^ 16`, takes no more digits. -/
def exponentBound : Nat := 0x10000

/-- The exponent that digits write, as far as the bound. -/
def exponentValue (digits : List Char) : Nat :=
  digits.foldl
    (fun sum c => if sum < exponentBound then sum * 10 + (c.toNat - '0'.toNat) else sum) 0

/-- The exponent part of a decimal numeral: nothing, or a mark, a sign and digits. -/
def exponent? : List Char → Option Int
  | [] => some 0
  | mark :: rest =>
      if mark == 'e' || mark == 'E' then
        let (negative, digits) :=
          match rest with
          | '-' :: digits => (true, digits)
          | '+' :: digits => (false, digits)
          | digits => (false, digits)
        if digits.isEmpty || !digits.all Char.isDigit then none
        else
          let value : Int := exponentValue digits
          some (if negative then -value else value)
      else none

/-- A decimal numeral without a sign. -/
def decimal? (text : List Char) : Option Double :=
  let whole := text.takeWhile Char.isDigit
  let (decimals, tail) :=
    match text.dropWhile Char.isDigit with
    | '.' :: rest => (rest.takeWhile Char.isDigit, rest.dropWhile Char.isDigit)
    | rest => ([], rest)
  if whole.isEmpty && decimals.isEmpty then none
  else
    (exponent? tail).map fun power =>
      ofDecimal (decimalValue (whole ++ decimals)) (power - decimals.length)

/-- Digits of a base, at least one. -/
def natural? (base : Nat) (text : List Char) : Option Double :=
  if text.isEmpty then none else (digits? base text).map (gather base)

/-- A numeral without a sign: hexadecimal after `0x`, else decimal. -/
def unsigned? : List Char → Option Double
  | '0' :: 'x' :: digits => natural? 16 digits
  | '0' :: 'X' :: digits => natural? 16 digits
  | text => decimal? text

/-- The number a text writes. -/
def parse? (text : String) : Option Double :=
  match trim isBlank text.toList with
  | '-' :: rest => (unsigned? rest).map (signed true)
  | '+' :: rest => unsigned? rest
  | rest => unsigned? rest

/-- The integer a text writes in a base, with a minus sign or none. -/
def parseRadix? (base : Nat) (text : String) : Option Double :=
  match trim isSpace text.toList with
  | '-' :: rest => (natural? base rest).map (signed true)
  | rest => natural? base rest

end Numeral

end LuaRuntime

import LuaRuntime.Number.Digits
import LuaRuntime.Number.Exact

/-!
# Decimal text of a number

Three layouts of a finite number: with a fixed count of decimals, with an exponent, and
the general one, which picks between the two by the size of the number.  Each rounds the
exact value once, a tie going to the even digit, and works on a count of units
(`Exact.finite`) with no rounding before that.

A number in exponent layout is a pair: the body, one digit before the point, and the
mark with the exponent.  The general layout takes the trailing zeros off the body only,
so no zero of the exponent is lost.

`numberText` is the text of a number in the language: an integer of at most fourteen
digits is written out, and any other number has fourteen significant digits in the
general layout.
-/

namespace LuaRuntime

namespace Decimal

/-- A point and the digits after it, or nothing if there are none. -/
def fraction (decimals : List Char) : List Char :=
  if decimals.isEmpty then [] else '.' :: decimals

/-! ## Fixed layout -/

/-- The number of units rounded to a multiple of `10 ^ (-decimals)`, as that multiple. -/
def scaled (decimals units : Nat) : Nat := roundHalfEven (units * Nat.pow 10 decimals) unitsPerOne

/-- A magnitude with a fixed count of digits after the point. -/
def fixed (decimals units : Nat) : List Char :=
  let all := (digits (scaled decimals units)).leftpad (decimals + 1) '0'
  let whole := all.length - decimals
  all.take whole ++ fraction (all.drop whole)

/-! ## Exponent layout -/

/-- The decimal exponent of a positive magnitude: the `x` with
`10 ^ x ≤ units / 2 ^ 1074 < 10 ^ (x + 1)`. -/
def exponent (units : Nat) : Int :=
  let whole := units / unitsPerOne
  if whole = 0 then -(digitCount ((unitsPerOne + units - 1) / units - 1) : Int)
  else (digitCount whole : Int) - 1

/-- A positive magnitude divided by a power of ten and rounded to an integer. -/
def shifted (power : Int) (units : Nat) : Nat :=
  if 0 ≤ power then roundHalfEven units (unitsPerOne * Nat.pow 10 power.toNat)
  else roundHalfEven (units * Nat.pow 10 (-power).toNat) unitsPerOne

/-- A magnitude rounded to `decimals + 1` significant digits: the digits as one number,
and the exponent of the first of them.  Rounding up to one digit more moves the exponent.
Zero has exponent zero. -/
def significant (decimals units : Nat) : Nat × Int :=
  if units = 0 then (0, 0)
  else
    let power := exponent units
    let rounded := shifted (power - decimals) units
    if Nat.pow 10 (decimals + 1) ≤ rounded then (rounded / 10, power + 1) else (rounded, power)

/-- The mark and the exponent, which has a sign and at least two digits. -/
def exponentMark (upper : Bool) (power : Int) : List Char :=
  (if upper then 'E' else 'e') :: (if power < 0 then '-' else '+') ::
    (digits power.natAbs).leftpad 2 '0'

/-- A magnitude with one digit before the point and `decimals` after it, and the
exponent part. -/
def exponential (decimals : Nat) (upper : Bool) (units : Nat) : List Char × List Char :=
  let (significand, power) := significant decimals units
  let all := (digits significand).leftpad (decimals + 1) '0'
  (all.take 1 ++ fraction (all.drop 1), exponentMark upper power)

/-! ## General layout -/

/-- A body without the zeros at the end of its fraction, and without the point if no
fraction is left. -/
def stripZeros (body : List Char) : List Char :=
  if body.contains '.' then
    ((body.reverse.dropWhile (· == '0')).dropWhile (· == '.')).reverse
  else body

/-- A magnitude with a number of significant digits.  The exponent layout is taken if
the exponent after rounding is below `-4` or not below that number.  Trailing zeros of
the fraction stay only if `alternate` is set. -/
def general (precision : Nat) (upper alternate : Bool) (units : Nat) : List Char :=
  let precision := max precision 1
  let power := (significant (precision - 1) units).2
  let (body, mark) :=
    if power < -4 ∨ (precision : Int) ≤ power then exponential (precision - 1) upper units
    else (fixed ((precision : Int) - 1 - power).toNat units, [])
  (if alternate then body else stripZeros body) ++ mark

end Decimal

/-! ## Text of a double -/

namespace Double

/-- The text of a double that is not finite, or a minus sign for a negative one before
the text of its magnitude. -/
def render (upper : Bool) (magnitude : Nat → List Char) (x : Double) : String :=
  let sign (negative : Bool) : List Char := if negative then ['-'] else []
  match exact x with
  | .nan => if upper then "NAN" else "nan"
  | .infinite negative =>
      String.ofList (sign negative ++ (if upper then ['I', 'N', 'F'] else ['i', 'n', 'f']))
  | .finite negative units => String.ofList (sign negative ++ magnitude units)

/-- A double with a fixed count of decimals. -/
def fixedText (decimals : Nat) (x : Double) : String := render false (Decimal.fixed decimals) x

/-- A double in exponent layout. -/
def exponentText (decimals : Nat) (upper : Bool) (x : Double) : String :=
  render upper (fun units =>
    let (body, mark) := Decimal.exponential decimals upper units
    body ++ mark) x

/-- A double in general layout. -/
def generalText (precision : Nat) (upper alternate : Bool) (x : Double) : String :=
  render upper (Decimal.general precision upper alternate) x

/-- Integers of smaller magnitude than `10 ^ 14` are written without a fraction or an
exponent. -/
def integerTextLimit : Nat := 100000000000000

/-- The text of a number in the language. -/
def numberText (x : Double) : String :=
  let whole := wholeOf x.magnitude
  if x.isIntegral && decide (whole < integerTextLimit) then
    String.ofList ((if x.isNegative then ['-'] else []) ++ Decimal.digits whole)
  else generalText 14 false false x

end Double

end LuaRuntime

/-!
# The exact value of a number

The numbers of the language are IEEE doubles.  Their text, their integer parts and
their use as table keys are decided by the real number a double stands for, so this
module says which one that is and how to come back.

A `Double` is its 64 bits: one bit of sign, and a *magnitude* of 63 bits that holds an
exponent above a fraction.  Every finite double is a whole number of *units*, a unit being
`2 ^ (-1074)`, the smallest positive double.  `Exact` is the reading of a double: no number,
an infinity, or a sign and a count of units.  The sign stands apart from the count because
there are two zeros.

`ofQuotient` goes the other way: it is the double nearest to a quotient of naturals, taken
in units, a tie going to the neighbour with the even significand.  If the quotient has more
than 53 binary digits, the excess is rounded off, and the number of digits dropped is the
exponent field less one.  Adding the rounded significand to the shifted exponent then
carries by itself, both from the subnormal doubles into the normal ones and from one binade
into the next.
-/

namespace LuaRuntime

/-- A number of the language, as the bits of an IEEE double. -/
structure Double where
  /-- The sign, the exponent and the fraction. -/
  bits : UInt64
deriving Repr, DecidableEq, Inhabited

/-- The real number a double stands for, if any.  A finite double is
`units / 2 ^ 1074`, negated if `negative`. -/
inductive Exact where
  /-- Not a number. -/
  | nan
  /-- One of the two infinities. -/
  | infinite (negative : Bool)
  /-- A finite double, as a sign and a count of units. -/
  | finite (negative : Bool) (units : Nat)
deriving Repr, DecidableEq, Inhabited

/-- The number of units in one: `2 ^ 1074`. -/
def unitsPerOne : Nat := Nat.pow 2 1074

/-- A quotient rounded to the nearest natural, a tie going to the even neighbour. -/
def roundHalfEven (numerator denominator : Nat) : Nat :=
  let quotient := numerator / denominator
  let twice := 2 * (numerator % denominator)
  if twice < denominator then quotient
  else if denominator < twice then quotient + 1
  else quotient + quotient % 2

namespace Double

/-! ## Reading a double -/

/-- The number of fractions that an exponent goes with: `2 ^ 52`. -/
def fractionCount : Nat := 0x10000000000000

/-- The number of exponents: `2 ^ 11`. -/
def exponentCount : Nat := 0x800

/-- The number of magnitudes, which is the sign bit: `2 ^ 63`. -/
def signBit : UInt64 := 0x8000000000000000

/-- The magnitude of the infinities.  Greater ones are no numbers. -/
def infinityBits : Nat := (exponentCount - 1) * fractionCount

/-- Whether the sign bit is set, be it a number or not. -/
def isNegative (x : Double) : Bool := signBit ≤ x.bits

/-- The bits without the sign. -/
def magnitude (x : Double) : Nat := (x.bits % signBit).toNat

/-- Whether a double is no number. -/
def isNaN (x : Double) : Bool := infinityBits < x.magnitude

/-- Whether a double is an infinity. -/
def isInfinite (x : Double) : Bool := x.magnitude == infinityBits

/-- Whether a double is a finite number. -/
def isFinite (x : Double) : Bool := x.magnitude < infinityBits

/-- The number of binary digits that a finite magnitude has below its significand, when it
is counted in units. -/
def shift (magnitude : Nat) : Nat := magnitude / fractionCount - 1

/-- The significand of a finite magnitude.  It has a leading digit unless the exponent is
zero. -/
def significand (magnitude : Nat) : Nat :=
  let fraction := magnitude % fractionCount
  if magnitude < fractionCount then fraction else fractionCount + fraction

/-- The count of units of a finite magnitude. -/
def unitsOf (magnitude : Nat) : Nat := significand magnitude * Nat.pow 2 (shift magnitude)

/-- The reading of a double. -/
def exact (x : Double) : Exact :=
  if x.isNaN then .nan
  else if x.isInfinite then .infinite x.isNegative
  else .finite x.isNegative (unitsOf x.magnitude)

/-! ## Writing a double -/

/-- The double with a sign and a magnitude. -/
def ofMagnitude (negative : Bool) (magnitude : Nat) : Double :=
  ⟨if negative then signBit + UInt64.ofNat magnitude else UInt64.ofNat magnitude⟩

/-- The magnitude of the double nearest to a quotient of units. -/
def magnitudeOf (numerator denominator : Nat) : Nat :=
  let dropped := (numerator / denominator).log2 - 52
  let significand := roundHalfEven numerator (denominator * Nat.pow 2 dropped)
  min (dropped * fractionCount + significand) infinityBits

/-- The double nearest to `numerator / denominator` units, negated if `negative`.  A tie
goes to the even significand, and what lies beyond the largest double goes to infinity. -/
def ofQuotient (negative : Bool) (numerator denominator : Nat) : Double :=
  ofMagnitude negative (magnitudeOf numerator denominator)

/-- The double with a given count of units, rounded if it has more digits than fit. -/
def ofUnits (negative : Bool) (units : Nat) : Double := ofQuotient negative units 1

/-- The double nearest to `numerator / denominator`, negated if `negative`. -/
def ofRatio (negative : Bool) (numerator denominator : Nat) : Double :=
  ofQuotient negative (numerator * unitsPerOne) denominator

/-- The magnitude of the double nearest to a natural number.  Its significand has 53 binary
digits, made up with zeros or rounded off. -/
def magnitudeOfNat (n : Nat) : Nat :=
  if n = 0 then 0
  else
    let length := n.log2
    let significand :=
      if length ≤ 52 then n * Nat.pow 2 (52 - length)
      else roundHalfEven n (Nat.pow 2 (length - 52))
    min ((length + 1022) * fractionCount + significand) infinityBits

/-- The double nearest to a natural number, negated if `negative`. -/
def ofNatural (negative : Bool) (n : Nat) : Double := ofMagnitude negative (magnitudeOfNat n)

/-- The double nearest to an integer. -/
def ofInt (i : Int) : Double := ofNatural (decide (i < 0)) i.natAbs

/-- The double nearest to a natural number. -/
def ofNat (n : Nat) : Double := ofNatural false n

/-- Zero, with a sign. -/
def zero (negative : Bool) : Double := ofMagnitude negative 0

/-- An infinity. -/
def infinity (negative : Bool) : Double := ofMagnitude negative infinityBits

/-- A double that is no number, with a sign. -/
def nan (negative : Bool) : Double := ofMagnitude negative 0x7ff8000000000000

/-! ## Order -/

/-- The place of a number in the order of all numbers.  The two zeros have one place. -/
def rank (x : Double) : UInt64 :=
  if x.isNegative then signBit - x.bits % signBit else signBit + x.bits

/-- The number at a place in the order. -/
def ofRank (place : UInt64) : Double :=
  if signBit ≤ place then ofMagnitude false (place - signBit).toNat
  else ofMagnitude true (signBit - place).toNat

/-- Whether two doubles are the same number. -/
def equal (x y : Double) : Bool := !x.isNaN && !y.isNaN && x.rank == y.rank

/-- Whether a number is less than another. -/
def less (x y : Double) : Bool := !x.isNaN && !y.isNaN && decide (x.rank < y.rank)

/-- Whether a number is less than another or equal to it. -/
def lessEqual (x y : Double) : Bool := !x.isNaN && !y.isNaN && decide (x.rank ≤ y.rank)

/-! ## Integer parts -/

/-- The binary digits of a finite magnitude that stand behind the point. -/
def fractionLength (magnitude : Nat) : Nat := 1074 - shift magnitude

/-- The integer part of a finite magnitude. -/
def wholeOf (magnitude : Nat) : Nat :=
  significand magnitude * Nat.pow 2 (shift magnitude - 1074)
    / Nat.pow 2 (fractionLength magnitude)

/-- Whether a finite magnitude is an integer. -/
def isWhole (magnitude : Nat) : Bool :=
  significand magnitude % Nat.pow 2 (fractionLength magnitude) == 0

/-- Whether a double is a finite integer. -/
def isIntegral (x : Double) : Bool := x.isFinite && isWhole x.magnitude

/-- Whether a double is an odd integer. -/
def isOdd (x : Double) : Bool := x.isIntegral && wholeOf x.magnitude % 2 == 1

/-- The integer part of a finite double, taken towards zero. -/
def toInt? (x : Double) : Option Int :=
  if x.isFinite then
    let whole : Int := wholeOf x.magnitude
    some (if x.isNegative then -whole else whole)
  else none

/-- The double rounded to an integer.  The sign is kept, so that rounding a small negative
number to zero gives negative zero.  A double that has no fraction stays as it is. -/
def roundWhole (up : Bool) (x : Double) : Double :=
  if !x.isFinite || isWhole x.magnitude then x
  else ofNatural x.isNegative (wholeOf x.magnitude + if up then 1 else 0)

/-- The integer towards zero. -/
def trunc (x : Double) : Double := roundWhole false x

/-- The largest integer not above. -/
def floor (x : Double) : Double := roundWhole x.isNegative x

/-- The smallest integer not below. -/
def ceil (x : Double) : Double := roundWhole (!x.isNegative) x

end Double

end LuaRuntime

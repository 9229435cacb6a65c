import LuaRuntime.Number.Exact

/-!
# Arithmetic on numbers

The sum, the difference, the product and the quotient of two doubles are those of the
machine, as are the functions of analysis.

What is no number has a sign, and it shows in formatted text.  An operand that is no number
is the answer itself, the first such operand if there are two.  An operation on numbers
that has no answer, such as zero divided by zero, gives a negative one, apart from a few
functions that give a positive one.  `lift`, `liftPositive` and `lift₂` carry these rules to
the functions of the machine.
-/

namespace LuaRuntime

namespace Double

/-! ## Sign -/

/-- The double without its sign. -/
def abs (x : Double) : Double := ofMagnitude false x.magnitude

/-- The double with the opposite sign. -/
def neg (x : Double) : Double := ofMagnitude (!x.isNegative) x.magnitude

/-! ## Functions of the machine -/

/-- The answer of an operation without one: the first operand that is no number, or else a
negative one. -/
def undefined (x y : Double) : Double := if x.isNaN then x else if y.isNaN then y else nan true

/-- The answer of a function without one that is positive if its operand is a number. -/
def undefinedPositive (x : Double) : Double := if x.isNaN then x else nan false

/-- A double as a floating-point number of the machine. -/
def toFloat (x : Double) : Float := Float.ofBits x.bits

/-- A function of the machine on a double. -/
@[inline] def lift (f : Float → Float) (x : Double) : Double :=
  let answer := f x.toFloat
  if answer.isNaN then undefined x x else ⟨answer.toBits⟩

/-- A function of the machine on a double whose missing answers are positive. -/
@[inline] def liftPositive (f : Float → Float) (x : Double) : Double :=
  let answer := f x.toFloat
  if answer.isNaN then undefinedPositive x else ⟨answer.toBits⟩

/-- A function of the machine on two doubles. -/
@[inline] def lift₂ (f : Float → Float → Float) (x y : Double) : Double :=
  let answer := f x.toFloat y.toFloat
  if answer.isNaN then undefined x y else ⟨answer.toBits⟩

/-! ## Operations -/

/-- The sum of two numbers. -/
def add (x y : Double) : Double := lift₂ Float.add x y

/-- The difference of two numbers. -/
def sub (x y : Double) : Double := lift₂ Float.sub x y

/-- The product of two numbers. -/
def mul (x y : Double) : Double := lift₂ Float.mul x y

/-- The quotient of two numbers. -/
def div (x y : Double) : Double := lift₂ Float.div x y

/-- A power.  Raising what is no number to an odd power drops its sign. -/
def pow (x y : Double) : Double :=
  if x.isNaN && y.isOdd then x.abs else lift₂ Float.pow x y

/-- The angle from the positive horizontal axis to a point.  Of two coordinates that are no
numbers the horizontal one is the answer. -/
def angle (vertical horizontal : Double) : Double :=
  lift₂ (fun x y => Float.atan2 y x) horizontal vertical

instance : Add Double := ⟨add⟩

instance : Sub Double := ⟨sub⟩

instance : Mul Double := ⟨mul⟩

instance : Div Double := ⟨div⟩

instance : Neg Double := ⟨neg⟩

/-! ## Remainder and scaling -/

/-- The remainder of a division rounded towards zero.  It is exact and has the sign of
the dividend.  There is none for an infinite dividend or a zero divisor. -/
def remainder (x y : Double) : Double :=
  match exact x, exact y with
  | .finite negative units, .finite _ divisor =>
      if divisor = 0 then undefined x y else ofUnits negative (units % divisor)
  | .finite .., .infinite _ => x
  | _, _ => undefined x y

/-- The power of two as a double.  A negative power is the reciprocal of the positive
one, so it is zero where that one is infinite. -/
def powerOfTwo (exponent : Int) : Double :=
  let power := ofNat (Nat.pow 2 exponent.natAbs)
  if 0 ≤ exponent then power else ofNat 1 / power

/-- The exponent field of the doubles from a half on and below one. -/
def halfField : Nat := 1022

/-- The fraction and the exponent of a double whose exponent field is neither zero nor full.
The field is replaced by that of a half. -/
def splitFields (x : Double) : Double × Int :=
  (ofMagnitude x.isNegative (halfField * fractionCount + x.magnitude % fractionCount),
    (x.magnitude / fractionCount : Nat) - halfField)

/-- A double split into a fraction of magnitude at least a half and below one, and the
power of two it is to be multiplied by.  A zero and a double that is not finite are
their own fraction.  A double with the exponent field zero is multiplied by `2 ^ 54` first,
which gives it another one. -/
def fractionExponent (power : Int → Double) (x : Double) : Double × Int :=
  if x.magnitude = 0 || !x.isFinite then (x, 0)
  else if x.magnitude < fractionCount then
    let (fraction, exponent) := splitFields (x * power 54)
    (fraction, exponent - 54)
  else splitFields x

end Double

end LuaRuntime

import LuaRuntime.Library.Argument
import LuaRuntime.Number.Word
import LuaRuntime.State.Basic

/-!
# Functions on numbers

Mathematical functions, random numbers and operations on 32-bit words.

Random numbers come from a linear congruential sequence of 64-bit words, whose high bits
are used.  A seed fixes the sequence.
-/

namespace LuaRuntime

/-! ## One number -/

/-- The name of a function of one number. -/
def UnaryFunction.name : UnaryFunction → String
  | .abs => "abs"
  | .acos => "acos"
  | .asin => "asin"
  | .atan => "atan"
  | .ceil => "ceil"
  | .cos => "cos"
  | .cosh => "cosh"
  | .degrees => "deg"
  | .exp => "exp"
  | .floor => "floor"
  | .log10 => "log10"
  | .radians => "rad"
  | .sin => "sin"
  | .sinh => "sinh"
  | .sqrt => "sqrt"
  | .tan => "tan"
  | .tanh => "tanh"

/-- The number pi. -/
def pi : Double := ⟨0x400921fb54442d18⟩

/-- The value of a function of one number. -/
def UnaryFunction.apply : UnaryFunction → Double → Double
  | .abs, x => x.abs
  | .acos, x => x.liftPositive Float.acos
  | .asin, x => x.liftPositive Float.asin
  | .atan, x => x.lift Float.atan
  | .ceil, x => x.ceil
  | .cos, x => x.lift Float.cos
  | .cosh, x => x.lift Float.cosh
  | .degrees, x => x * (Double.ofNat 180 / pi)
  | .exp, x => x.lift Float.exp
  | .floor, x => x.floor
  | .log10, x => x.liftPositive Float.log10
  | .radians, x => x * (pi / Double.ofNat 180)
  | .sin, x => x.lift Float.sin
  | .sinh, x => x.lift Float.sinh
  | .sqrt, x => x.lift Float.sqrt
  | .tan, x => x.lift Float.tan
  | .tanh, x => x.lift Float.tanh

/-! ## Several numbers -/

/-- A logarithm, natural or to a base.  The bases 2 and 10 have functions of their own. -/
def logarithm (x : Double) : Option Double → Double
  | none => x.lift Float.log
  | some base =>
      if base.equal (.ofNat 2) then x.lift Float.log2
      else if base.equal (.ofNat 10) then x.liftPositive Float.log10
      else x.lift Float.log / base.lift Float.log

/-- The best of all arguments.  A number is better if it stands in the relation to the best
one so far. -/
def best (args : List Value) (function : String) (better : Double → Double → Bool) :
    Except Error Double :=
  (Argument.numbers args function).map fun xs =>
    xs.tail.foldl (fun best x => if better x best then x else best) (xs.headD (.ofNat 0))

/-- The integer part and the fraction of a number.  An infinity has the fraction zero. -/
def integerAndFraction (x : Double) : Double × Double :=
  let whole := Double.trunc x
  (whole, if x.isInfinite then Double.ofNat 0 else x - whole)

/-- The greatest exponent of a power of two that is told apart from greater ones. -/
def exponentBound : Int := 2200

/-- A number times a power of two. -/
def scaleByPower (power : Int → Double) (x : Double) (exponent : Int) : Double :=
  x * power (max (-exponentBound) (min exponentBound exponent))

/-! ## Random numbers -/

/-- The state of the random numbers after another. -/
def nextRandom (r : UInt64) : UInt64 := r * 6364136223846793005 + 1442695040888963407

/-- The number of 32-bit words: `2 ^ 32`. -/
def halfWordCount : Nat := 0x100000000

/-- The number of steps from zero to one that a random fraction is taken from: `2 ^ 53`. -/
def fractionSteps : Nat := 0x20000000000000

/-- A random word of 32 bits. -/
def drawWord : Action Nat :=
  modifyGet fun s =>
    let r := nextRandom s.random
    (r.toNat / halfWordCount, { s with random := r })

/-- A random number below a bound, from 64 random bits. -/
def drawBelow (bound : Nat) : Action Nat := do
  let high ← drawWord
  let low ← drawWord
  return (high * halfWordCount + low) * bound / Value.wordCount

/-- A random integer of an interval. -/
def drawBetween (low high : Int) : Action Double := do
  if high < low then throw .emptyInterval
  else return Double.ofInt (low + (← drawBelow (high - low + 1).toNat))

/-- `math.random`: a number from zero to one, or an integer of an interval. -/
def drawRandom (args : List Value) : Action Double := do
  let first ← Argument.optional Argument.integer args 1 "random"
  let second ← Argument.optional Argument.integer args 2 "random"
  match first, second with
  | none, none => return Double.ofRatio false (← drawBelow fractionSteps) fractionSteps
  | none, some _ => throw (.badArgument 1 "random" (.expected "number" .nil))
  | some m, none => drawBetween 1 m
  | some m, some n => drawBetween m n

/-! ## Functions -/

/-- Runs a mathematical function. -/
def runMath (f : MathFunction) (args : List Value) : Action (List Value) := do
  match f with
  | .unary f => return [.number (f.apply (← Argument.number args 1 f.name))]
  | .atan2 =>
      let y ← Argument.number args 1 "atan2"
      let x ← Argument.number args 2 "atan2"
      return [.number (y.angle x)]
  | .remainder =>
      let x ← Argument.number args 1 "fmod"
      let y ← Argument.number args 2 "fmod"
      return [.number (Double.remainder x y)]
  | .fractionExponent =>
      let x ← Argument.number args 1 "frexp"
      let (fraction, exponent) := Double.fractionExponent Double.powerOfTwo x
      return [.number fraction, .ofInt exponent]
  | .scale =>
      let x ← Argument.number args 1 "ldexp"
      let exponent ← Argument.integer args 2 "ldexp"
      return [.number (scaleByPower Double.powerOfTwo x exponent)]
  | .log =>
      let x ← Argument.number args 1 "log"
      return [.number (logarithm x (← Argument.optional Argument.number args 2 "log"))]
  | .max => return [.number (← best args "max" fun x best => best.less x)]
  | .min => return [.number (← best args "min" fun x best => x.less best)]
  | .parts =>
      let (whole, fraction) := integerAndFraction (← Argument.number args 1 "modf")
      return [.number whole, .number fraction]
  | .power =>
      let x ← Argument.number args 1 "pow"
      let y ← Argument.number args 2 "pow"
      return [.number (x.pow y)]
  | .random => return [.number (← drawRandom args)]
  | .seed =>
      let x ← Argument.number args 1 "randomseed"
      modify fun s => { s with random := x.bits }
      return []

/-! ## Words -/

/-- The word of an argument. -/
def wordArgument (args : List Value) (position : Nat) (function : String) : Except Error Word :=
  (Argument.number args position function).map Word.ofNumber

/-- The words of all arguments, of which there must be one. -/
def wordArguments (args : List Value) (function : String) : Except Error (List Word) :=
  (Argument.numbers args function).map fun xs => xs.map Word.ofNumber

/-- An operation on a word and a distance from 0 to 31. -/
def shiftBy (args : List Value) (function : String) (shift : Word → Nat → Word) :
    Except Error Word := do
  let w ← wordArgument args 1 function
  let distance ← wordArgument args 2 function
  return shift w (distance.toNat % 32)

/-- Runs a function on words. -/
def runBit (f : BitFunction) (args : List Value) : Except Error Value := do
  match f with
  | .toBit => return .number (← wordArgument args 1 "tobit").toNumber
  | .toHex =>
      let w ← wordArgument args 1 "tohex"
      return .string (w.hexText ((← Argument.optional Argument.integer args 2 "tohex").getD 8))
  | .not => return .number (Word.toNumber (~~~ (← wordArgument args 1 "bnot")))
  | .or => return .number (Word.toNumber ((← wordArguments args "bor").foldl (· ||| ·) 0))
  | .and =>
      return .number
        (Word.toNumber ((← wordArguments args "band").foldl (· &&& ·) (BitVec.allOnes 32)))
  | .xor => return .number (Word.toNumber ((← wordArguments args "bxor").foldl (· ^^^ ·) 0))
  | .shiftLeft => return .number (← shiftBy args "lshift" (· <<< ·)).toNumber
  | .shiftRight => return .number (← shiftBy args "rshift" (· >>> ·)).toNumber
  | .shiftArithmetic => return .number (← shiftBy args "arshift" BitVec.sshiftRight).toNumber
  | .rotateLeft => return .number (← shiftBy args "rol" BitVec.rotateLeft).toNumber
  | .rotateRight => return .number (← shiftBy args "ror" BitVec.rotateRight).toNumber
  | .swapBytes => return .number (← wordArgument args 1 "bswap").swapBytes.toNumber

end LuaRuntime

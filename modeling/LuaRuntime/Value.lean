import LuaRuntime.Number.Decimal
import LuaRuntime.Number.Numeral

/-!
# Values

A value is nil, a boolean, a number, a string, a table or a function.  Numbers are
doubles and strings are sequences of characters.  Tables and functions live in the state
of the runtime, and a value holds only their identity: two table values are equal when
they name the same table.

`Value.toNumber?` and `Value.toInteger?` are the coercions that arithmetic and the
library apply to their operands.  A string that reads as a number counts as that number.
An integer is the number without its fraction, brought into the range of 64-bit integers.
-/

namespace LuaRuntime

/-! ## Identity -/

/-- The identity of a table. -/
structure TableId where
  /-- Its place in the state. -/
  index : Nat
deriving Repr, DecidableEq, Inhabited

/-- The identity of a function. -/
structure FunctionId where
  /-- Its place in the state. -/
  index : Nat
deriving Repr, DecidableEq, Inhabited

/-! ## Kinds -/

/-- The six kinds of value. -/
inductive Kind where
  | nil
  | boolean
  | number
  | string
  | table
  | function
deriving Repr, DecidableEq

/-- The name of a kind, as `type` returns it. -/
def Kind.name : Kind → String
  | .nil => "nil"
  | .boolean => "boolean"
  | .number => "number"
  | .string => "string"
  | .table => "table"
  | .function => "function"

/-! ## Values -/

/-- A value of the language. -/
inductive Value where
  | nil
  | boolean (b : Bool)
  | number (n : Double)
  | string (s : String)
  | table (id : TableId)
  | function (id : FunctionId)
deriving DecidableEq, Inhabited

namespace Value

/-- The kind of a value. -/
def kind : Value → Kind
  | .nil => .nil
  | .boolean _ => .boolean
  | .number _ => .number
  | .string _ => .string
  | .table _ => .table
  | .function _ => .function

/-- Whether a value is nil. -/
def isNil : Value → Bool
  | .nil => true
  | _ => false

/-- Whether a value counts as true: all do but nil and false. -/
def isTruthy : Value → Bool
  | .nil => false
  | .boolean b => b
  | _ => true

/-- Whether a value is a function. -/
def isFunction : Value → Bool
  | .function _ => true
  | _ => false

/-- Whether a value is a string or a number, which are the values with a text of their
own. -/
def isTextual : Value → Bool
  | .string _ => true
  | .number _ => true
  | _ => false

/-- The nearest number to an integer, as a value. -/
def ofInt (i : Int) : Value := .number (Double.ofInt i)

/-- The nearest number to a natural number, as a value. -/
def ofNat (n : Nat) : Value := .number (Double.ofNat n)

/-- An optional number, nil if there is none. -/
def ofNumber? : Option Double → Value
  | some x => .number x
  | none => .nil

/-- An optional table, nil if there is none. -/
def ofTable? : Option TableId → Value
  | some id => .table id
  | none => .nil

/-- Equality without metatables.  Values of different kinds differ, numbers are compared
as numbers, and tables and functions by identity. -/
def rawEqual : Value → Value → Bool
  | .nil, .nil => true
  | .boolean a, .boolean b => a == b
  | .number x, .number y => x.equal y
  | .string s, .string t => s == t
  | .table a, .table b => a == b
  | .function f, .function g => f == g
  | _, _ => false

/-! ## Coercions -/

/-- The number of 64-bit words: `2 ^ 64`. -/
def wordCount : Nat := 0x10000000000000000

/-- The least 64-bit integer: `-2 ^ 63`. -/
def leastInteger : Int := -0x8000000000000000

/-- The greatest 64-bit integer: `2 ^ 63 - 1`. -/
def greatestInteger : Int := 0x7fffffffffffffff

/-- The 64-bit integer nearest to an integer. -/
def saturate (i : Int) : Int := max leastInteger (min greatestInteger i)

/-- A number, or a string that reads as one. -/
def toNumber? : Value → Option Double
  | .number x => some x
  | .string s => Numeral.parse? s
  | _ => none

/-- The integer part of a finite number, in the range of 64-bit integers. -/
def toInteger? (v : Value) : Option Int := (v.toNumber?.bind Double.toInt?).map saturate

/-! ## Text -/

/-- An identity written as twelve hexadecimal digits. -/
def addressText (index : Nat) : String :=
  String.ofList ('0' :: 'x' :: (Nat.toDigits 16 (16 * (index + 1))).leftpad 12 '0')

/-- The text of a boolean. -/
def booleanText (b : Bool) : String := if b then "true" else "false"

/-- The text of a value without metatables. -/
def rawText : Value → String
  | .nil => "nil"
  | .boolean b => booleanText b
  | .number n => Double.numberText n
  | .string s => s
  | .table id => "table: " ++ addressText (2 * id.index)
  | .function id => "function: " ++ addressText (2 * id.index + 1)

/-- The description of an operand in an error message. -/
def describe : Value → String
  | .nil => "nil"
  | .boolean b => "boolean " ++ booleanText b
  | .number n => "number " ++ Double.numberText n
  | .string s => "string '" ++ s ++ "'"
  | v => v.rawText

end Value

/-! ## Lists of values -/

/-- The first value of a list, nil if it is empty. -/
def firstValue : List Value → Value
  | [] => .nil
  | v :: _ => v

end LuaRuntime

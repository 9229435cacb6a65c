import LuaRuntime.Pattern.Walk
import LuaRuntime.Script.Expr
import LuaRuntime.Table.Key

/-!
# Functions

A function is a name and a body.  The body is a function of the library, a script, or an
iterator with what is still to come.  `Builtin` lists the functions of the library.
-/

namespace LuaRuntime

/-! ## Functions of the library -/

/-- The global functions. -/
inductive BaseFunction where
  | print
  | kindName
  | assert
  | error
  | toNumber
  | toText
  | select
  | ipairs
  | ipairsStep
  | pairs
  | next
  | unpack
  | protectedCall
  | handledCall
  | getMetatable
  | setMetatable
  | rawGet
  | rawSet
  | rawEqual
  | collectGarbage
  | load
  | require
  | createModule
deriving Repr, DecidableEq

/-- The functions on strings. -/
inductive StringFunction where
  | byte
  | char
  | find
  | format
  | gmatch
  | gsub
  | length
  | lower
  | firstMatch
  | rep
  | reverse
  | sub
  | upper
deriving Repr, DecidableEq

/-- The functions on tables. -/
inductive TableFunction where
  | concat
  | length
  | insert
  | greatestKey
  | remove
  | sort
deriving Repr, DecidableEq

/-- The functions of one number. -/
inductive UnaryFunction where
  | abs
  | acos
  | asin
  | atan
  | ceil
  | cos
  | cosh
  | degrees
  | exp
  | floor
  | log10
  | radians
  | sin
  | sinh
  | sqrt
  | tan
  | tanh
deriving Repr, DecidableEq

/-- The mathematical functions. -/
inductive MathFunction where
  | unary (f : UnaryFunction)
  | atan2
  | remainder
  | fractionExponent
  | scale
  | log
  | max
  | min
  | parts
  | power
  | random
  | seed
deriving Repr, DecidableEq

/-- The functions on 32-bit words. -/
inductive BitFunction where
  | toBit
  | toHex
  | not
  | or
  | and
  | xor
  | shiftLeft
  | shiftRight
  | shiftArithmetic
  | rotateLeft
  | rotateRight
  | swapBytes
deriving Repr, DecidableEq

/-- A function of the library. -/
inductive Builtin where
  | base (f : BaseFunction)
  | string (f : StringFunction)
  | table (f : TableFunction)
  | math (f : MathFunction)
  | bit (f : BitFunction)
  /-- The seconds the runtime has been running. -/
  | clock
  /-- The time of a date, or the current time. -/
  | time
  /-- The seconds between two times. -/
  | timeDifference
  /-- Writes to the output. -/
  | write
  /-- Lets a module see the globals. -/
  | seeAll
  /-- The metatable, whatever it says about itself. -/
  | rawMetatable
  /-- Sets the metatable, whatever the old one says about itself. -/
  | setRawMetatable
  /-- Returns its arguments. -/
  | echo
  /-- Raises an error, because there is no such function here. -/
  | unsupported (what : String)
deriving Repr, DecidableEq

/-! ## Bodies -/

/-- The body of a function. -/
inductive Body where
  /-- A function of the library. -/
  | builtin (f : Builtin)
  /-- A script.  Its results replace the call if `substitutes` is set. -/
  | script (substitutes : Bool) (steps : List Expr)
  /-- An iterator over the entries of a table at some keys. -/
  | entries (table : TableId) (pending : List Key)
  /-- An iterator over the matches of a pattern. -/
  | matches (walk : MatchWalk)
deriving Inhabited

/-- A function. -/
structure Function where
  /-- Its name, which does not tell functions apart. -/
  name : String
  /-- What it does. -/
  body : Body
deriving Inhabited

/-- What a call gives.  A list of values may be marked as replacing the call. -/
structure Outcome where
  /-- The results. -/
  values : List Value
  /-- Whether they replace the call. -/
  substituted : Bool := false
deriving DecidableEq

end LuaRuntime

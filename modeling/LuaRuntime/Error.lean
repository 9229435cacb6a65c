import LuaRuntime.Event
import LuaRuntime.Value

/-!
# Errors

An error says what went wrong.  Its class (`ErrorClass`) is what a caller can tell
errors apart by, and its message is what a protected call reports.  `Error.raised` is the
one error that carries a value of the program itself.  A panic is no error of the program: it
ends everything under way, and no call is protected from it.

Bad arguments of library functions share one shape, `badArgument`, with the number of the
argument, the name of the function and what is wrong with the argument.  Patterns and
format strings have their own lists of faults.
-/

namespace LuaRuntime

/-! ## Faults by subject -/

/-- What can be wrong with an argument of a library function. -/
inductive ArgumentFault where
  /-- The argument is of another kind than the one named. -/
  | expected (what : String) (got : Kind)
  /-- The argument is absent, and one of the kind named is needed. -/
  | missing (what : String)
  /-- The argument is absent, and any value would do. -/
  | absent
  /-- The argument is no number, whatever else it is. -/
  | notNumeric
  /-- The argument is neither nil nor a table. -/
  | notMetatable
  /-- A position outside the sequence. -/
  | positionOutOfBounds
  /-- A base of numerals outside 2 to 36. -/
  | baseOutOfRange
  /-- An index that selects nothing. -/
  | indexOutOfRange
  /-- A code that belongs to no character. -/
  | valueOutOfRange
  /-- A directive of a format string has no value to write. -/
  | noValue
  /-- A field reference of a format string leads through something other than a table. -/
  | fieldOf (field : String) (kind : Kind)
deriving Repr, DecidableEq

/-- What can be wrong with a pattern or with a replacement template. -/
inductive PatternFault where
  | tooManyCaptures
  | unopenedCapture
  | unfinishedCapture
  | missingBracket
  | trailingPercent
  | frontierWithoutSet
  /-- A construct that patterns do not have here. -/
  | unsupported (construct : String)
  /-- The engine for regular expressions refuses the translation, and says why. -/
  | refused (message : String)
  /-- A template refers to a capture that the pattern does not have. -/
  | captureIndex (index : Nat)
  /-- A template has a `%` before neither a digit nor another `%`. -/
  | templatePercent
deriving Repr, DecidableEq

/-- What can be wrong with a format string. -/
inductive FormatFault where
  | trailingPercent
  | unfinishedReference
  | fieldReference (name : String)
  | positionOutOfRange (digits : String)
  | positionZero
  | numberTooLong
  | missingConversion
  | mixedReferences
  /-- A conversion letter that does not exist. -/
  | unknownConversion (letter : Char)
deriving Repr, DecidableEq

/-! ## Errors -/

/-- Everything that can stop an evaluation. -/
inductive Error where
  /-- A bad argument of a library function. -/
  | badArgument (position : Nat) (function : String) (fault : ArgumentFault)
  /-- A library function was given a number of arguments it has no meaning for. -/
  | argumentCount (function : String)
  /-- A random number from an empty interval. -/
  | emptyInterval
  /-- An arithmetic operator on operands that it does not take. -/
  | arithmetic (operator : Arithmetic) (left right : Value)
  /-- Joining a value that has no text. -/
  | concatenate (kind : Kind)
  /-- Joining two numbers. -/
  | concatenateNumbers
  /-- Joining a table with a value in it that has no text. -/
  | concatenateItem (index : Int) (kind : Kind)
  /-- Calling a value that is no function. -/
  | call (kind : Kind)
  /-- Calling a method that a value does not have. -/
  | method (name : String)
  /-- Indexing a value that is no table. -/
  | index (kind : Kind) (key : Value)
  /-- A chain of index handlers did not end within the limit. -/
  | chain (event : Event)
  /-- The length of a value that has none. -/
  | length (kind : Kind)
  /-- Ordering two values that have no order. -/
  | compare (left right : Kind)
  /-- A list of keys and values with a key left over. -/
  | unpairedKey
  /-- Writing at the key nil. -/
  | nilKey
  /-- Writing at a key that is not a number. -/
  | nanKey
  /-- Asking for the key after one that was never part of the traversal. -/
  | unknownKey
  /-- Too many values to return. -/
  | unpackTooMany
  /-- The metatable is hidden by its `__metatable` field. -/
  | protectedMetatable
  /-- A replacement that is neither text nor a request to keep the match. -/
  | replacement (kind : Kind)
  /-- A string longer than the limit. -/
  | stringTooLarge
  /-- A date without a field that it needs. -/
  | dateField (name : String)
  /-- A module name whose path leads through something other than a table. -/
  | moduleConflict (name : String)
  /-- No module of that name. -/
  | moduleMissing (name : String)
  /-- A bad pattern or replacement template. -/
  | pattern (fault : PatternFault)
  /-- A bad format string. -/
  | format (fault : FormatFault)
  /-- A part of the library that is not provided. -/
  | unsupported (what : String)
  /-- Calls nested deeper than the limit. -/
  | stackOverflow
  /-- A value raised by the program. -/
  | raised (value : Value)
  /-- The machine gives up, since an integer of 64 bits overflows or a text has no room. -/
  | panic
deriving DecidableEq, Inhabited

/-- Whether an error is a panic. -/
def Error.isPanic : Error → Bool
  | .panic => true
  | _ => false

/-! ## Classes -/

/-- The classes of error. -/
inductive ErrorClass where
  | type
  | key
  | lookup
  | compare
  | pattern
  | unsupported
  | stackOverflow
  | runtime
  | panic
deriving Repr, DecidableEq

/-- The class of an error.  Indexing nil is an error of the key, indexing any other value
one of the type. -/
def Error.class : Error → ErrorClass
  | .index .nil _ => .key
  | .nilKey | .nanKey | .unknownKey => .key
  | .method _ | .moduleMissing _ => .lookup
  | .compare .. => .compare
  | .pattern _ => .pattern
  | .concatenateNumbers | .unsupported _ => .unsupported
  | .stackOverflow => .stackOverflow
  | .raised _ => .runtime
  | .panic => .panic
  | _ => .type

/-! ## Messages -/

/-- The message of a fault of an argument. -/
def ArgumentFault.message : ArgumentFault → String
  | .expected what got => what ++ " expected, got " ++ got.name
  | .missing what => what ++ " expected, got no value"
  | .absent => "value expected"
  | .notNumeric => "number expected"
  | .notMetatable => "nil or table expected"
  | .positionOutOfBounds => "position out of bounds"
  | .baseOutOfRange => "base out of range"
  | .indexOutOfRange => "index out of range"
  | .valueOutOfRange => "value out of range"
  | .noValue => "no value"
  | .fieldOf field kind => "field '" ++ field ++ "' of a " ++ kind.name ++ " value"

/-- The message of a fault of a pattern. -/
def PatternFault.message : PatternFault → String
  | .tooManyCaptures => "too many captures"
  | .unopenedCapture => "invalid pattern capture"
  | .unfinishedCapture => "malformed pattern (unfinished capture)"
  | .missingBracket => "malformed pattern (missing ']')"
  | .trailingPercent => "malformed pattern (ends with '%')"
  | .frontierWithoutSet => "missing '[' after '%f' in pattern"
  | .unsupported construct => "unsupported pattern construct: " ++ construct
  | .refused message => "malformed pattern: " ++ message
  | .captureIndex index =>
      "invalid capture index %" ++ toString index ++ " in replacement string"
  | .templatePercent => "invalid use of '%' in replacement string"

/-- The message of a fault of a format string. -/
def FormatFault.message : FormatFault → String
  | .trailingPercent => "invalid format (ends with '%')"
  | .unfinishedReference => "invalid format (unfinished '%(' reference)"
  | .fieldReference name => "invalid format (bad field reference '" ++ name ++ "')"
  | .positionOutOfRange digits =>
      "invalid format (argument position " ++ digits ++ " out of range)"
  | .positionZero => "invalid format (argument position must start at 1)"
  | .numberTooLong => "invalid format (width or precision too long)"
  | .missingConversion => "invalid format (missing conversion)"
  | .mixedReferences => "invalid format (positional and named references cannot be mixed)"
  | .unknownConversion letter => "invalid option '%" ++ letter.toString ++ "' to 'format'"

/-- The message of an error.  A raised value is written as its own text. -/
def Error.message : Error → String
  | .badArgument position function fault =>
      "bad argument #" ++ toString position ++ " to '" ++ function ++ "' (" ++
        fault.message ++ ")"
  | .argumentCount function => "wrong number of arguments to '" ++ function ++ "'"
  | .emptyInterval => "bad argument to 'random' (interval is empty)"
  | .arithmetic .negate left _ =>
      "attempt to " ++ Arithmetic.negate.verb ++ " " ++ left.describe
  | .arithmetic operator left right =>
      "attempt to " ++ operator.verb ++ " " ++ left.describe ++ " and " ++ right.describe
  | .concatenate kind => "attempt to concatenate a " ++ kind.name ++ " value"
  | .concatenateNumbers =>
      "attempt to concatenate two numbers; convert one to a string first"
  | .concatenateItem place kind =>
      "invalid value (at index " ++ toString place ++ ") in table for 'concat' (got " ++
        kind.name ++ ")"
  | .call kind => "attempt to call a " ++ kind.name ++ " value"
  | .method name => "attempt to call method '" ++ name ++ "' (a nil value)"
  | .index kind key =>
      "attempt to index a " ++ kind.name ++ " value (key '" ++ key.rawText ++ "')"
  | .chain event => "'" ++ event.field ++ "' chain too long; possible loop"
  | .length kind => "attempt to get length of a " ++ kind.name ++ " value"
  | .compare left right => "cannot compare " ++ left.name ++ " with " ++ right.name
  | .unpairedKey => "table constructor expects key/value pairs"
  | .nilKey => "table index is nil"
  | .nanKey => "table index is NaN"
  | .unknownKey => "invalid key to 'next'"
  | .unpackTooMany => "too many results to unpack"
  | .protectedMetatable => "cannot change a protected metatable"
  | .replacement kind => "invalid replacement value (a " ++ kind.name ++ ")"
  | .stringTooLarge => "resulting string too large"
  | .dateField name => "field '" ++ name ++ "' missing in date table"
  | .moduleConflict name => "name conflict for module '" ++ name ++ "'"
  | .moduleMissing name => "module '" ++ name ++ "' not found"
  | .pattern fault => fault.message
  | .format fault => fault.message
  | .unsupported what => what ++ " is not supported"
  | .stackOverflow => "stack overflow"
  | .raised value => value.rawText
  | .panic => "panic"

/-- The value a protected call reports: the raised value itself, or else the message. -/
def Error.toValue : Error → Value
  | .raised value => value
  | e => .string e.message

end LuaRuntime

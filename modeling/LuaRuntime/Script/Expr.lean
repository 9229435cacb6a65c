import LuaRuntime.Event
import LuaRuntime.Number.Exact

/-!
# Scripts

A script drives the runtime from outside.  It is a list of expressions, and an expression
gives a list of values or an error.  Besides literals, variables and control, an
expression applies one of the `Operation`s to operands.  An operand gives its first value,
except that a spliced one gives all of its values.

Functions written as scripts are values of the language like any other function.  Their
body sees the arguments of the call.  Variables are shared by the whole script.
-/

namespace LuaRuntime

/-! ## Names -/

/-- The standard libraries. -/
inductive LibraryName where
  | base
  | package
  | string
  | table
  | math
  | bit
  | io
  | os
  | coroutine
  | debug
deriving Repr, DecidableEq

/-- The ways to check an argument of a library function. -/
inductive ArgumentCheck where
  | any
  | table
  | number
  | integer
  | string
  | optionalNumber
  | optionalInteger
  | optionalString
deriving Repr, DecidableEq

/-! ## Operations -/

/-- What an expression can apply to its operands. -/
inductive Operation where
  /-- The operands themselves. -/
  | values
  /-- The first operand. -/
  | first
  /-- The number of operands. -/
  | count
  /-- Whether the operand counts as false. -/
  | negation
  /-- Raises the operand. -/
  | raise
  /-- A global, or a field of a global table. -/
  | global (path : String)
  /-- Calls the first operand with the others. -/
  | call
  /-- The first result of a call. -/
  | callFirst
  /-- Whether a call replaced its results, and the results. -/
  | callOutcome
  /-- Calls a method of the first operand. -/
  | method (name : String)
  /-- A protected call. -/
  | protectedCall
  /-- A protected call with a handler, the second operand. -/
  | handledCall
  /-- An arithmetic operator. -/
  | arithmetic (operator : Arithmetic)
  | equal
  | less
  | lessEqual
  | rawEqual
  | concat
  | index
  | setIndex
  | length
  /-- The text of a value as a value. -/
  | toText
  /-- The text of a value as a string. -/
  | text
  /-- The name of the kind of a value. -/
  | kindName
  | truthy
  | toNumber
  /-- The integer of a value, in decimal. -/
  | toInteger
  | rawText
  /-- The text of a value that shows its kind. -/
  | shownText
  | functionName
  | parseNumber
  | numberText
  | fixedText (decimals : Nat)
  | exponentText (decimals : Nat) (upper : Bool)
  | generalText (precision : Nat) (upper alternate : Bool)
  | rawGet
  | rawSet
  | getString (name : String)
  | setString (name : String)
  | getInteger (i : Int)
  | rawLength
  | greatestKey
  | entryCount
  | isArray
  | toArray
  | toSparse
  | items
  | insertItem (position : Nat)
  | removeItem (position : Nat)
  | replaceItems
  /-- All keys and values. -/
  | entries
  /-- All keys and values, by steps of a traversal. -/
  | walk
  /-- All keys and values, by the global `pairs`. -/
  | iterate
  | metatable
  | setMetatable
  | setGlobal (name : String)
  | setStringMetatable
  | setLoader
  | createModule (name : String)
  | require (name : String)
  /-- Opens a library, or all of them. -/
  | openLibrary (library : Option LibraryName)
  /-- Installs a library with one function, which returns its arguments, and one value. -/
  | openEcho (name : String)
  | check (check : ArgumentCheck) (position : Nat) (function : String)
  | isPlain (pattern : String)
  /-- The first match of a pattern in a text from an offset in bytes on. -/
  | findPattern (pattern text : String) (offset : Nat)
deriving Repr, DecidableEq

/-! ## Expressions -/

/-- An expression. -/
inductive Expr where
  | nil
  | boolean (b : Bool)
  | number (n : Double)
  | string (s : String)
  /-- A new table, from values by position and from keys and values. -/
  | table (positional : Option (List Expr)) (flat : List Expr)
  /-- A new table in the array layout. -/
  | array (items : List Expr)
  /-- A new function. -/
  | function (name : String) (substitutes : Bool) (body : List Expr)
  /-- The value of a variable, nil if it was never set. -/
  | read (name : String)
  | assign (name : String) (value : Expr)
  /-- An argument of the running function, counted from 1. -/
  | argument (position : Nat)
  /-- The arguments of the running function but the first ones. -/
  | arguments (dropped : Nat)
  | argumentCount
  /-- The values of the last one of several expressions. -/
  | sequence (steps : List Expr)
  /-- One of two expressions, by a condition. -/
  | choose (condition yes : Expr) (no : Option Expr)
  /-- The values of a body for each integer of a range. -/
  | loop (name : String) (first last body : Expr)
  /-- All values of an operand. -/
  | splice (e : Expr)
  /-- An operation on operands. -/
  | apply (operation : Operation) (operands : List Expr)
deriving Inhabited

/-- Whether an operand gives all of its values. -/
def Expr.isSplice : Expr → Bool
  | .splice _ => true
  | _ => false

end LuaRuntime

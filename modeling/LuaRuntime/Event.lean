/-!
# Events

A metatable answers *events*: its field `__add` says what adding the value means, its
field `__index` where an absent key is looked up, and so on.  This module lists the
arithmetic operators and the events, and gives each event the name of its field.
-/

namespace LuaRuntime

/-- The arithmetic operators. -/
inductive Arithmetic where
  | add
  | subtract
  | multiply
  | divide
  | modulo
  | power
  | negate
deriving Repr, DecidableEq

/-- What an operator does to its operands, as error messages say it. -/
def Arithmetic.verb : Arithmetic → String
  | .add => "add"
  | .subtract => "subtract"
  | .multiply => "multiply"
  | .divide => "divide"
  | .modulo => "take the modulo of"
  | .power => "exponentiate"
  | .negate => "negate"

/-- The events a metatable can answer. -/
inductive Event where
  /-- An arithmetic operator. -/
  | arithmetic (operator : Arithmetic)
  /-- Reading an absent key. -/
  | index
  /-- Writing an absent key. -/
  | newIndex
  /-- Comparing two tables for equality. -/
  | equal
  /-- Ordering, strictly. -/
  | less
  /-- Ordering, with equality. -/
  | lessEqual
  /-- Joining texts. -/
  | concat
  /-- Calling a value that is no function. -/
  | call
  /-- Taking the length. -/
  | length
  /-- Writing the value as text. -/
  | toText
  /-- Asking for the metatable. -/
  | metatable
deriving Repr, DecidableEq

/-- The field of a metatable that answers an event. -/
def Event.field : Event → String
  | .arithmetic .add => "__add"
  | .arithmetic .subtract => "__sub"
  | .arithmetic .multiply => "__mul"
  | .arithmetic .divide => "__div"
  | .arithmetic .modulo => "__mod"
  | .arithmetic .power => "__pow"
  | .arithmetic .negate => "__unm"
  | .index => "__index"
  | .newIndex => "__newindex"
  | .equal => "__eq"
  | .less => "__lt"
  | .lessEqual => "__le"
  | .concat => "__concat"
  | .call => "__call"
  | .length => "__len"
  | .toText => "__tostring"
  | .metatable => "__metatable"

end LuaRuntime

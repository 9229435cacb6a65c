import LuaRuntime.Operator.Call

/-!
# Arithmetic and joining

Arithmetic takes numbers and strings that read as numbers.  If an operand is neither, the
handler of the left operand is called, or else that of the right one.  Negation is an
operator with its operand on both sides.

Joining takes strings and numbers, though not two numbers.
-/

namespace LuaRuntime

/-- The value of an operator on numbers.  The modulo has the sign of the divisor. -/
def Arithmetic.apply : Arithmetic → Double → Double → Double
  | .add, x, y => x + y
  | .subtract, x, y => x - y
  | .multiply, x, y => x * y
  | .divide, x, y => x / y
  | .modulo, x, y => x - Double.floor (x / y) * y
  | .power, x, y => x.pow y
  | .negate, x, _ => -x

/-- The handler of either operand, the left one first. -/
def eitherHandler? (a b : Value) (event : Event) : Action (Option Value) := do
  let s ← get
  return (s.handler? a event).or (s.handler? b event)

/-- An arithmetic operator on two values. -/
def arithmetic (invoke : Invoke) (operator : Arithmetic) (a b : Value) : Action Value :=
  match a.toNumber?, b.toNumber? with
  | some x, some y => return .number (operator.apply x y)
  | _, _ => do
      match ← eitherHandler? a b (.arithmetic operator) with
      | some handler => callFirst invoke handler [a, b]
      | none => throw (.arithmetic operator a b)

/-- Joins two values. -/
def concat (invoke : Invoke) (a b : Value) : Action Value :=
  match a, b with
  | .number _, .number _ => throw .concatenateNumbers
  | _, _ =>
      if a.isTextual && b.isTextual then return .string (a.rawText ++ b.rawText)
      else do
        match ← eitherHandler? a b .concat with
        | some handler => callFirst invoke handler [a, b]
        | none => throw (.concatenate (if a.isTextual then b.kind else a.kind))

end LuaRuntime

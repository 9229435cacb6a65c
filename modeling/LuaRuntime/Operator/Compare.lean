import LuaRuntime.Operator.Call

/-!
# Equality and order

Values are equal if they are raw equal, or if they are two tables and the handler they
share says so.  Numbers are ordered as numbers and strings by their characters.  All other
values are ordered by a handler they share.  Without a shared handler of `<=` its answer
is the opposite of the reverse `<`.
-/

namespace LuaRuntime

/-- Whether two values are equal. -/
def equals (invoke : Invoke) (a b : Value) : Action Bool :=
  if a.rawEqual b then return true
  else
    match a, b with
    | .table _, .table _ => do
        match (← get).sharedHandler? a b .equal with
        | some handler => return (← callFirst invoke handler [a, b]).isTruthy
        | none => return false
    | _, _ => return false

/-- Whether a value is less than another. -/
def lessThan (invoke : Invoke) (a b : Value) : Action Bool :=
  match a, b with
  | .number x, .number y => return x.less y
  | .string s, .string t => return decide (s < t)
  | _, _ => do
      match (← get).sharedHandler? a b .less with
      | some handler => return (← callFirst invoke handler [a, b]).isTruthy
      | none => throw (.compare a.kind b.kind)

/-- Whether a value is less than another or equal to it. -/
def lessEqual (invoke : Invoke) (a b : Value) : Action Bool :=
  match a, b with
  | .number x, .number y => return x.lessEqual y
  | .string s, .string t => return !decide (t < s)
  | _, _ => do
      let s ← get
      match s.sharedHandler? a b .lessEqual with
      | some handler => return (← callFirst invoke handler [a, b]).isTruthy
      | none =>
          match s.sharedHandler? a b .less with
          | some handler => return !(← callFirst invoke handler [b, a]).isTruthy
          | none => throw (.compare a.kind b.kind)

end LuaRuntime

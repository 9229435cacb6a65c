import LuaRuntime.Operator.Metatable

/-!
# Calls

A function is called as it is.  Any other value is called through its `__call` handler,
which must be a function and gets the value before the arguments.

A protected call turns an error into values.  The state is the one the failed call left.  A panic
goes through it.
-/

namespace LuaRuntime

/-- Calls a value. -/
def callOutcome (invoke : Invoke) (callee : Value) (args : List Value) : Action Outcome :=
  match callee with
  | .function f => invoke f args
  | _ => do
      match ← handler? callee .call with
      | some (.function f) => invoke f (callee :: args)
      | _ => throw (.call callee.kind)

/-- The results of a call, whether they replace it or not. -/
def call (invoke : Invoke) (callee : Value) (args : List Value) : Action (List Value) :=
  return (← callOutcome invoke callee args).values

/-- The first result of a call. -/
def callFirst (invoke : Invoke) (callee : Value) (args : List Value) : Action Value :=
  return firstValue (← call invoke callee args)

/-- Runs an action, and goes on from its error with another one.  A panic stays. -/
def catching {α : Type} (x : Action α) (handler : Error → Action α) : Action α :=
  tryCatch x fun e => if e.isPanic then throw e else handler e

/-- A protected call: true and the results, or false and the value of the error. -/
def protectedCall (invoke : Invoke) (callee : Value) (args : List Value) :
    Action (List Value) :=
  catching (return .boolean true :: (← call invoke callee args)) fun e =>
    return [.boolean false, e.toValue]

/-- A protected call whose error goes through a handler.  If the handler fails, its own
error is reported. -/
def handledCall (invoke : Invoke) (callee handler : Value) (args : List Value) :
    Action (List Value) :=
  catching (return .boolean true :: (← call invoke callee args)) fun e => do
    let report ← catching (callFirst invoke handler [e.toValue]) fun second =>
      return second.toValue
    return [.boolean false, report]

end LuaRuntime

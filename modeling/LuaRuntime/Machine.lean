import LuaRuntime.Library.Environment
import LuaRuntime.Regex.Engine
import LuaRuntime.Script.Eval

/-!
# Calls of functions

`invoke` calls a function.  A call fails if as many calls are under way as the limit
allows.  Otherwise the body of the function runs one level deeper, and the depth is the
same again afterwards, whether the body fails or not.

The recursion is on a number of nested calls.  Each call has one left less than the call
around it, so the number left and the depth add up to the limit, and none is left exactly
when the limit is reached.
-/

namespace LuaRuntime

/-- Runs a function of the library. -/
def runBuiltin (invoke : Invoke) (f : Builtin) (args : List Value) : Action Outcome := do
  match f with
  | .base f => runBase invoke f args
  | .string f => return results (← runString Regex.backtracking invoke f args)
  | .table f => return results (← runTable invoke f args)
  | .math f => return results (← runMath f args)
  | .bit f => return results [← runBit f args]
  | .clock => return results [.ofNat 0]
  | .time => return results [← timeOf Calendar.utc args]
  | .timeDifference => return results [← timeDifference args]
  | .write => writeValues args; return results []
  | .seeAll => seeAll args; return results []
  | .rawMetatable => return results [← rawMetatable args]
  | .setRawMetatable => return results [← setRawMetatable args]
  | .echo => return results args
  | .unsupported what => throw (.unsupported what)

/-- Runs the body of a function. -/
def runBody (invoke : Invoke) (self : FunctionId) (args : List Value) : Body → Action Outcome
  | .builtin f => runBuiltin invoke f args
  | .script substitutes steps => do
      let values ← evalSequence invoke args steps
      return { values, substituted := substitutes }
  | .entries table pending => stepEntries self table pending
  | .matches walk => return results (← stepMatches self walk)

/-- Runs an action one level deeper, unless the limit is reached. -/
def nested {α : Type} (action : Action α) : Action α := fun s =>
  if s.limits.callDepth ≤ s.depth then (.error .stackOverflow, s)
  else
    let (result, t) := action { s with depth := s.depth + 1 }
    (result, { t with depth := t.depth - 1 })

/-- Calls a function, with a number of nested calls left. -/
def invoke : (remaining : Nat) → Invoke
  | 0, _, _ => throw .stackOverflow
  | remaining + 1, f, args =>
      nested do runBody (invoke remaining) f args ((← get).function f).body

/-- Evaluates an expression outside of any function. -/
def run (e : Expr) : Action (List Value) := do
  eval (invoke (← get).limits.callDepth) [] e

end LuaRuntime

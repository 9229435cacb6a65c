import LuaRuntime.State.Basic

/-!
# Metatables

A table may have a metatable, and all strings share one.  The handler of an event is the
value of the metatable at the field of the event.

Ordering and equality of two values use a handler only if both values have the same one,
so two implementations are never mixed.
-/

namespace LuaRuntime

namespace State

/-- The metatable of a value. -/
def metatable? (s : State) : Value → Option TableId
  | .table id => (s.table id).metatable
  | .string _ => s.stringMetatable
  | _ => none

/-- The handler of an event in the metatable of a value. -/
def handler? (s : State) (v : Value) (event : Event) : Option Value :=
  (s.metatable? v).bind fun mt => (s.table mt).get? (.string event.field)

/-- The handler of an event that two values have in common. -/
def sharedHandler? (s : State) (a b : Value) (event : Event) : Option Value :=
  match s.handler? a event, s.handler? b event with
  | some left, some right => if left.rawEqual right then some left else none
  | _, _ => none

end State

/-- The handler of an event in the metatable of a value. -/
def handler? (v : Value) (event : Event) : Action (Option Value) :=
  return (← get).handler? v event

end LuaRuntime

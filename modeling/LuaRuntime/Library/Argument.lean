import LuaRuntime.Error

/-!
# Arguments of library functions

Arguments are counted from 1.  A number may be given as a string that reads as one, and a
string as a number.  An optional argument may be absent or nil.  All checks fail with an
error that names the function and the position of the argument.
-/

namespace LuaRuntime

namespace Argument

/-- The argument at a position, if it is there. -/
def get? (args : List Value) : (position : Nat) → Option Value
  | 0 => none
  | i + 1 => args[i]?

/-- The argument at a position, nil if it is not there. -/
def get (args : List Value) (position : Nat) : Value := (get? args position).getD .nil

/-- The error for an argument that is not what is expected. -/
def mismatch (args : List Value) (position : Nat) (function what : String) : Error :=
  .badArgument position function
    (match get? args position with
    | some v => .expected what v.kind
    | none => .missing what)

/-- Any argument, which must be there. -/
def any (args : List Value) (position : Nat) (function : String) : Except Error Value :=
  match get? args position with
  | some v => .ok v
  | none => .error (.badArgument position function .absent)

/-- A table. -/
def table (args : List Value) (position : Nat) (function : String) : Except Error TableId :=
  match get? args position with
  | some (.table id) => .ok id
  | _ => .error (mismatch args position function "table")

/-- A number. -/
def number (args : List Value) (position : Nat) (function : String) : Except Error Double :=
  match (get? args position).bind Value.toNumber? with
  | some x => .ok x
  | none => .error (mismatch args position function "number")

/-- An integer: a finite number without its fraction. -/
def integer (args : List Value) (position : Nat) (function : String) : Except Error Int :=
  match (get? args position).bind Value.toInteger? with
  | some i => .ok i
  | none => .error (mismatch args position function "number")

/-- A string. -/
def string (args : List Value) (position : Nat) (function : String) : Except Error String :=
  match get? args position with
  | some (.string s) => .ok s
  | some (.number n) => .ok (Double.numberText n)
  | _ => .error (mismatch args position function "string")

/-- An argument that may be absent or nil, and is checked otherwise. -/
def optional {α : Type} (check : List Value → Nat → String → Except Error α)
    (args : List Value) (position : Nat) (function : String) : Except Error (Option α) :=
  if (get args position).isNil then .ok none
  else (check args position function).map some

/-- The numbers of a list of arguments, the first of which is at a position. -/
def numbersFrom (function : String) : (position : Nat) → List Value → Except Error (List Double)
  | _, [] => .ok []
  | position, v :: rest =>
      match v.toNumber? with
      | some x => (numbersFrom function (position + 1) rest).map (x :: ·)
      | none => .error (.badArgument position function (.expected "number" v.kind))

/-- All arguments as numbers, of which there must be one. -/
def numbers (args : List Value) (function : String) : Except Error (List Double) :=
  if args.isEmpty then .error (mismatch args 1 function "number")
  else numbersFrom function 1 args

end Argument

end LuaRuntime

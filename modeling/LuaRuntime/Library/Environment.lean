import LuaRuntime.Calendar
import LuaRuntime.Library.Argument
import LuaRuntime.Library.Base

/-!
# Time, output and metatables

The functions that reach outside of the language: the time of a date, the output, and
metatables without their protection.
-/

namespace LuaRuntime

/-! ## Time -/

/-- A field of a date.  One that is no integer counts as absent. -/
def dateField (t : Table) (name : String) (default : Option Int) : Except Error Int :=
  match ((t.getString name).toInteger?).or default with
  | some i => .ok i
  | none => .error (.dateField name)

/-- The date and time that a table describes.  The hour is noon unless it is given. -/
def dateOf (t : Table) : Except Error Calendar.DateTime := do
  return {
    year := ← dateField t "year" none
    month := ← dateField t "month" none
    day := ← dateField t "day" none
    hour := ← dateField t "hour" (some 12)
    minute := ← dateField t "min" (some 0)
    second := ← dateField t "sec" (some 0) }

/-- `os.time`: the time of a date, nil if a clock knows none, or the current time. -/
def timeOf {Moment : Type} (clock : Calendar.Clock Moment) (args : List Value) : Action Value := do
  match Argument.get args 1 with
  | .nil => return .ofInt (← get).now
  | .table id =>
      match (← dateOf (← getTable id)).timestamp? clock with
      | some seconds => return .ofInt seconds
      | none => return .nil
  | v => throw (.badArgument 1 "time" (.expected "table" v.kind))

/-- `os.difftime`: the difference of two times. -/
def timeDifference (args : List Value) : Except Error Value := do
  let later ← Argument.number args 1 "difftime"
  let earlier := (← Argument.optional Argument.number args 2 "difftime").getD (Double.ofNat 0)
  return .number (later - earlier)

/-! ## Output -/

/-- The texts of the arguments from a position on, which must be strings or numbers. -/
def writtenTexts : (position : Nat) → List Value → Except Error (List String)
  | _, [] => .ok []
  | position, v :: rest =>
      if v.isTextual then (writtenTexts (position + 1) rest).map (v.rawText :: ·)
      else .error (.badArgument position "write" (.expected "string" v.kind))

/-- `io.write`: writes strings and numbers. -/
def writeValues (args : List Value) : Action Unit := do
  writeOutput (String.join (← writtenTexts 1 args))

/-! ## Metatables -/

/-- `debug.getmetatable`: the metatable of a value. -/
def rawMetatable (args : List Value) : Action Value := do
  let v ← Argument.any args 1 "getmetatable"
  return .ofTable? ((← get).metatable? v)

/-- `debug.setmetatable`: sets the metatable of a table. -/
def setRawMetatable (args : List Value) : Action Value := do
  let v ← Argument.any args 1 "setmetatable"
  let mt ← newMetatable args
  match v with
  | .table id =>
      modifyTable id ({ · with metatable := mt })
      return v
  | _ => throw (.unsupported "debug.setmetatable on non-table values")

end LuaRuntime

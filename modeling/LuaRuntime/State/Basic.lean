import LuaRuntime.Format.Directive
import LuaRuntime.State.Cache
import LuaRuntime.State.Function
import LuaRuntime.Table.Sequence
import LuaRuntime.Table.Traversal

/-!
# The state of the runtime

The state holds all tables and functions, the globals and the string metatable, the
modules, the output and the caches.  Tables and functions are only ever added, so an
identity stays valid.  It also holds what a run finds and does not choose: the time, and the
order in which the maps of a table list their keys.

An `Action` reads and changes the state, and ends with a value or an error.  What it
changed before an error stays changed: only the rest of the action is left out.

Calls go through a parameter, an `Invoke`, because the functions of the library call other
functions and are themselves called by them.  `LuaRuntime.Machine` ties the knot with a
bound on the depth of calls.
-/

namespace LuaRuntime

open Std (TreeMap)

/-! ## Settings -/

/-- The limits of a runtime. -/
structure Limits where
  /-- The depth of nested calls. -/
  callDepth : Nat := 200
  /-- The length of a chain of index handlers. -/
  indexChain : Nat := 100
  /-- The bytes of a repeated string, `2 ^ 30` unless it is said otherwise. -/
  stringSize : Nat := 0x40000000
deriving Repr, DecidableEq, Inhabited

/-- Where the output goes. -/
inductive Sink where
  /-- It is kept. -/
  | keep
  /-- It fails. -/
  | closed
deriving Repr, DecidableEq, Inhabited

/-! ## State -/

/-- The state of a runtime. -/
structure State where
  /-- All tables. -/
  tables : Array Table
  /-- All functions. -/
  functions : Array Function
  /-- The table of globals. -/
  globals : TableId
  /-- The metatable of all strings. -/
  stringMetatable : Option TableId := none
  /-- The modules created by name. -/
  modules : TreeMap String TableId := {}
  /-- The function that makes functions from source text. -/
  loader : Option Value := none
  /-- What has been written. -/
  output : String := ""
  /-- Where the output goes. -/
  sink : Sink := .keep
  /-- The limits. -/
  limits : Limits := {}
  /-- The number of calls under way. -/
  depth : Nat := 0
  /-- The state of the random numbers. -/
  random : UInt64 := 0
  /-- The current time, in seconds since the start of 1970. -/
  now : Int := 0
  /-- Format strings that have been read. -/
  formats : Cache Format := {}
  /-- Patterns that have been compiled. -/
  patterns : Cache CompiledPattern := {}
  /-- The variables of scripts. -/
  bindings : TreeMap String Value := {}
  /-- The order in which tables list their strings and other numbers. -/
  arrangement : Arrangement := .ascending

/-- A computation of the runtime. -/
abbrev Action := ExceptT Error (StateM State)

/-- A way to call functions. -/
abbrev Invoke := FunctionId → List Value → Action Outcome

/-- The state of a new runtime: the globals hold only themselves, as `_G`. -/
def State.initial (limits : Limits) (sink : Sink) (now : Int) : State where
  tables := #[({} : Table).setString "_G" (.table ⟨0⟩)]
  functions := #[]
  globals := ⟨0⟩
  limits := limits
  sink := sink
  now := now

/-! ## Tables -/

/-- A table of the state. -/
def State.table (s : State) (id : TableId) : Table := (s.tables[id.index]?).getD {}

/-- The state with a table changed. -/
def State.modifyTable (s : State) (id : TableId) (f : Table → Table) : State :=
  { s with tables := s.tables.modify id.index f }

/-- A table. -/
def getTable (id : TableId) : Action Table := return (← get).table id

/-- Changes a table. -/
def modifyTable (id : TableId) (f : Table → Table) : Action Unit :=
  modify (·.modifyTable id f)

/-- Adds a table. -/
def newTable (t : Table) : Action TableId :=
  modifyGet fun s => (⟨s.tables.size⟩, { s with tables := s.tables.push t })

/-- Changes a table by an operation that has a result, or fails. -/
def updateTable {α : Type} (id : TableId) (f : Table → Except Error α × Table) : Action α := do
  let (result, t) := f (← getTable id)
  modifyTable id fun _ => t
  liftM result

/-- The value of a table at a string. -/
def getField (id : TableId) (name : String) : Action Value :=
  return (← getTable id).getString name

/-- Writes to a table at a string. -/
def setField (id : TableId) (name : String) (v : Value) : Action Unit :=
  modifyTable id (·.setString name v)

/-- The value of a table at a value. -/
def rawGet (id : TableId) (key : Value) : Action Value := return (← getTable id).rawGet key

/-- Writes to a table at a value, which must be a key. -/
def rawSet (id : TableId) (key v : Value) : Action Unit := do
  modifyTable id (·.rawSet key v)
  let _ ← Key.check key

/-- The length of a table. -/
def tableLength (id : TableId) : Action Nat := do
  modifyTable id Table.measured
  return (← getTable id).length

/-- The number of items of a table, which goes into the array layout. -/
def tableItemCount (id : TableId) : Action Nat := do
  modifyTable id Table.toArray
  return (← getTable id).items.size

/-- The items of a table, which goes into the array layout. -/
def tableItems (id : TableId) : Action (List Value) := do
  modifyTable id Table.toArray
  return (← getTable id).items.toList

/-- The keys of a table, in the order of a traversal. -/
def tableKeys (id : TableId) : Action (List Key) := do
  return (← getTable id).keys (← get).arrangement

/-- The entry of a table after a value in the order of a walk, none at its end. -/
def nextEntry (id : TableId) (v : Value) : Action (Option (Key × Value)) := do
  let arrangement := (← get).arrangement
  updateTable id (·.next arrangement v)

/-- Inserts a value at a position of the items of a table, which must have room there. -/
def insertItem (id : TableId) (position : Nat) (v : Value) : Action Unit := do
  if (← getTable id).hasRoomAt position then modifyTable id (·.insertItem position v)
  else
    modifyTable id Table.forSequence
    throw (.badArgument 2 "insert" .positionOutOfBounds)

/-- Removes the item at a position of a table, and returns it, nil if there is none. -/
def removeItem (id : TableId) (position : Nat) : Action Value := do
  match (← getTable id).item? position with
  | some item =>
      modifyTable id (·.removeItem position)
      return item
  | none =>
      modifyTable id Table.forSequence
      return .nil

/-! ## Functions -/

/-- A function of the state. -/
def State.function (s : State) (id : FunctionId) : Function :=
  (s.functions[id.index]?).getD default

/-- Adds a function. -/
def newFunction (f : Function) : Action FunctionId :=
  modifyGet fun s => (⟨s.functions.size⟩, { s with functions := s.functions.push f })

/-- Changes the body of a function. -/
def setBody (id : FunctionId) (body : Body) : Action Unit :=
  modify fun s => { s with functions := s.functions.modify id.index ({ · with body := body }) }

/-! ## Globals and output -/

/-- The value of a global. -/
def getGlobal (name : String) : Action Value := do getField (← get).globals name

/-- Sets a global. -/
def setGlobal (name : String) (v : Value) : Action Unit := do setField (← get).globals name v

/-- Writes to the output.  A closed sink refuses every text but the empty one. -/
def writeOutput (text : String) : Action Unit := do
  match (← get).sink with
  | .keep => modify fun s => { s with output := s.output ++ text }
  | .closed => if text.isEmpty then pure () else throw (.raised (.string "sink closed"))

end LuaRuntime

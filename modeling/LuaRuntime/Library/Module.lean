import LuaRuntime.Library.Argument
import LuaRuntime.Operator.Call
import LuaRuntime.Text.Path

/-!
# Modules

A module is a table with a dotted name.  It is registered under its name, listed in
`package.loaded`, and linked into the globals at the path its name writes.  The tables
along the path are made as they are needed.  If something other than a table stands on the
path, the name is in conflict with it.

`require` looks a name up among the registered modules, then in `package.loaded`, and at
last runs the loader that `package.preload` has for it.
-/

namespace LuaRuntime

/-- The table in a field of the global `package`, if it is one. -/
def packageTable? (field : String) : Action (Option TableId) := do
  match ← getGlobal "package" with
  | .table package =>
      match ← getField package field with
      | .table id => return some id
      | _ => return none
  | _ => return none

/-- Stores a module at the parts of a path below a table.  `name` is the whole path. -/
def linkBelow (module : TableId) (name : String) : List String → TableId → Action Unit
  | [], _ => pure ()
  | [last], parent => setField parent last (.table module)
  | part :: rest, parent => do
      match ← getField parent part with
      | .table next => linkBelow module name rest next
      | .nil => do
          let next ← newTable {}
          setField parent part (.table next)
          linkBelow module name rest next
      | _ => throw (.moduleConflict name)

/-- Stores a module at the path its name writes below the globals. -/
def linkModule (name : String) (module : TableId) : Action Unit := do
  linkBelow module name (Path.parts name) (← get).globals

/-- The module of a name that already exists, registered or loaded. -/
def existingModule? (name : String) (loaded : Option TableId) : Action (Option TableId) := do
  match (← get).modules[name]? with
  | some module => return some module
  | none =>
      match loaded with
      | none => return none
      | some loaded =>
          match ← getField loaded name with
          | .table module => return some module
          | _ => return none

/-- Calls each function with a value. -/
def callEach (invoke : Invoke) (v : Value) : List Value → Action Unit
  | [] => pure ()
  | f :: rest => do
      let _ ← call invoke f [v]
      callEach invoke v rest

/-- Creates a module, or opens it again, and calls each initializer with it. -/
def createModule (invoke : Invoke) (name : String) (initializers : List Value) :
    Action TableId := do
  let loaded ← packageTable? "loaded"
  let module ←
    match ← existingModule? name loaded with
    | some module => pure module
    | none => newTable {}
  setField module "_NAME" (.string name)
  setField module "_M" (.table module)
  setField module "_PACKAGE" (.string (Path.parent name))
  modify fun s => { s with modules := s.modules.insert name module }
  if let some loaded := loaded then setField loaded name (.table module)
  linkModule name module
  callEach invoke (.table module) initializers
  return module

/-- Enters what a loader returned into the table of loaded modules.  A loader without a
result may have entered the module itself. -/
def registerLoaded (name : String) (loaded : TableId) (result : Value) : Action Value := do
  let registered ← getField loaded name
  let result :=
    if !result.isNil then result
    else if registered.isNil then .boolean true
    else registered
  setField loaded name result
  return result

/-- Runs the loader that `package.preload` has for a name. -/
def preload (invoke : Invoke) (name : String) (loaded : Option TableId) : Action Value := do
  let loader ←
    match ← packageTable? "preload" with
    | some preload => getField preload name
    | none => pure .nil
  if loader.isNil then throw (.moduleMissing name)
  else
    let result ← callFirst invoke loader [.string name]
    let result ←
      match loaded with
      | some loaded => registerLoaded name loaded result
      | none => pure result
    if let .table module := result then linkModule name module
    return result

/-- The module of a name. -/
def requireModule (invoke : Invoke) (name : String) : Action Value := do
  match (← get).modules[name]? with
  | some module =>
      linkModule name module
      return .table module
  | none =>
      let loaded ← packageTable? "loaded"
      let found ←
        match loaded with
        | some loaded => getField loaded name
        | none => pure .nil
      if found.isNil then preload invoke name loaded else return found

/-- `package.seeall`: a module looks absent names up among the globals. -/
def seeAll (args : List Value) : Action Unit := do
  let module ← Argument.table args 1 "seeall"
  let mt ←
    match (← getTable module).metatable with
    | some mt => pure mt
    | none =>
        let mt ← newTable {}
        modifyTable module ({ · with metatable := some mt })
        pure mt
  setField mt "__index" (.table (← get).globals)

end LuaRuntime

import LuaRuntime.Operator.Call

/-!
# Indexing, length and text

Reading an absent key of a table, or any key of another value, goes to the `__index`
handler.  A function among the handlers is called, and any other handler is indexed in
turn.  Writing goes to `__newindex` in the same way.

`State.readStep` and `State.writeStep` say what a single value on such a chain does, from
the state alone.  The chain itself is followed as far as the limit allows, so it ends on
any graph of metatables.
-/

namespace LuaRuntime

/-! ## Reading -/

/-- What a value does when it is read at a key. -/
inductive ReadStep where
  /-- It has the answer. -/
  | found (v : Value)
  /-- It has a handler that is a function. -/
  | call (handler : Value)
  /-- It has another handler, which is read instead. -/
  | follow (handler : Value)
  /-- It cannot be read. -/
  | fail (e : Error)

/-- The step to a handler. -/
def ReadStep.ofHandler (handler : Value) : ReadStep :=
  if handler.isFunction then .call handler else .follow handler

/-- What a value does when it is read at a key. -/
def State.readStep (s : State) (v key : Value) : ReadStep :=
  match v with
  | .table id =>
      let found := (s.table id).rawGet key
      if !found.isNil then .found found
      else
        match s.handler? v .index with
        | some handler => .ofHandler handler
        | none => .found .nil
  | _ =>
      match s.handler? v .index with
      | some handler => .ofHandler handler
      | none => .fail (.index v.kind key)

/-- Reads a value at a key, with `limit` steps along the chain of handlers. -/
def indexWithin (invoke : Invoke) (key : Value) : (limit : Nat) → Value → Action Value
  | 0, _ => throw (.chain .index)
  | limit + 1, v => do
      match (← get).readStep v key with
      | .found found => return found
      | .call handler => callFirst invoke handler [v, key]
      | .follow handler => indexWithin invoke key limit handler
      | .fail e => throw e

/-- Reads a value at a key. -/
def index (invoke : Invoke) (v key : Value) : Action Value := do
  indexWithin invoke key (← get).limits.indexChain v

/-! ## Writing -/

/-- What a value does when it is written at a key. -/
inductive WriteStep where
  /-- It is a table, and takes the value. -/
  | store (id : TableId)
  /-- It has a handler that is a function. -/
  | call (handler : Value)
  /-- It has another handler, which is written instead. -/
  | follow (handler : Value)
  /-- It cannot be written. -/
  | fail (e : Error)

/-- The step to a handler. -/
def WriteStep.ofHandler (handler : Value) : WriteStep :=
  if handler.isFunction then .call handler else .follow handler

/-- What a value does when it is written at a key. -/
def State.writeStep (s : State) (v key : Value) : WriteStep :=
  match v with
  | .table id =>
      match Key.check key with
      | .error e => .fail e
      | .ok key =>
          if !((s.table id).get key).isNil then .store id
          else
            match s.handler? v .newIndex with
            | some handler => .ofHandler handler
            | none => .store id
  | _ =>
      match s.handler? v .newIndex with
      | some handler => .ofHandler handler
      | none => .fail (.index v.kind key)

/-- Writes to a value at a key, with `limit` steps along the chain of handlers. -/
def setIndexWithin (invoke : Invoke) (key new : Value) : (limit : Nat) → Value → Action Unit
  | 0, _ => throw (.chain .newIndex)
  | limit + 1, v => do
      match (← get).writeStep v key with
      | .store id => rawSet id key new
      | .call handler => discard (call invoke handler [v, key, new])
      | .follow handler => setIndexWithin invoke key new limit handler
      | .fail e => throw e

/-- Writes to a value at a key. -/
def setIndex (invoke : Invoke) (v key new : Value) : Action Unit := do
  setIndexWithin invoke key new (← get).limits.indexChain v

/-! ## Length and text -/

/-- The length of a value: the characters of a string, what the handler says, or the
length of a table. -/
def length (invoke : Invoke) (v : Value) : Action Value :=
  match v with
  | .string s => return .ofNat s.length
  | _ => do
      match ← handler? v .length with
      | some handler => callFirst invoke handler [v]
      | none =>
          match v with
          | .table id => return .ofNat (← tableLength id)
          | _ => throw (.length v.kind)

/-- The text of a value as its handler gives it, which may be any value. -/
def toText (invoke : Invoke) (v : Value) : Action Value := do
  match ← handler? v .toText with
  | some handler => callFirst invoke handler [v]
  | none => return .string v.rawText

/-- The text of a value. -/
def text (invoke : Invoke) (v : Value) : Action String :=
  return (← toText invoke v).rawText

/-- Calls a method of a value. -/
def callMethod (invoke : Invoke) (receiver : Value) (name : String) (args : List Value) :
    Action (List Value) := do
  let method ← index invoke receiver (.string name)
  if method.isNil then throw (.method name)
  else call invoke method (receiver :: args)

end LuaRuntime

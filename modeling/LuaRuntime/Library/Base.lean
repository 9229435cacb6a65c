import LuaRuntime.Library.Argument
import LuaRuntime.Library.Module
import LuaRuntime.Operator.Index

/-!
# Global functions

Printing, conversions, iteration, protected calls, metatables and raw access.

`select` and `unpack` return lists that replace the call.  `pairs` takes the keys of the
table as they are at the call: the iterator passes over those that have gone meanwhile and
does not see new ones.
-/

namespace LuaRuntime

/-! ## Results -/

/-- Values as the results of a call. -/
def results (values : List Value) : Outcome := { values }

/-- Values that replace the call. -/
def replacing (values : List Value) : Outcome := { values, substituted := true }

/-! ## Conversions -/

/-- `tonumber`: a number from a value, or from a string in a base. -/
def toNumberIn (args : List Value) : Except Error Value := do
  let v ← Argument.any args 1 "tonumber"
  match ← Argument.optional Argument.integer args 2 "tonumber" with
  | none => return .ofNumber? v.toNumber?
  | some base =>
      if base < 2 ∨ 36 < base then throw (.badArgument 2 "tonumber" .baseOutOfRange)
      else
        let digits ← Argument.string args 1 "tonumber"
        return .ofNumber? (Numeral.parseRadix? base.toNat digits)

/-- `print`: the texts of values with tabs between them, on a line. -/
def printLine (invoke : Invoke) (args : List Value) : Action Unit := do
  let texts ← args.mapM (text invoke)
  writeOutput ("\t".intercalate texts ++ "\n")

/-! ## Lists of values -/

/-- The number of values to pass over so that an index comes first, if there is one.  A
negative index counts from the end. -/
def selectOffset? (position : Int) (count : Nat) : Option Nat :=
  let offset := if position < 0 then count + position else position - 1
  if position = 0 ∨ offset < 0 then none else some offset.toNat

/-- `select`: the values from an index on, or their number. -/
def select (args : List Value) : Except Error Outcome := do
  let selector ← Argument.any args 1 "select"
  let rest := args.drop 1
  if selector.rawEqual (.string "#") then return replacing [.ofNat rest.length]
  else
    match selector.toInteger? with
    | none => throw (.badArgument 1 "select" .notNumeric)
    | some position =>
        match selectOffset? position rest.length with
        | none => throw (.badArgument 1 "select" .indexOutOfRange)
        | some offset => return replacing (rest.drop offset)

/-- The values of a table at consecutive integers. -/
def valuesFrom (t : Table) : (count : Nat) → Int → List Value
  | 0, _ => []
  | count + 1, i => t.getInteger i :: valuesFrom t count (i + 1)

/-- The least distance between the ends of a range that `unpack` refuses: `2 ^ 24`. -/
def unpackLimit : Int := 0x1000000

/-- `unpack`: the values of a table at a range of integers. -/
def unpack (args : List Value) : Action Outcome := do
  let id ← Argument.table args 1 "unpack"
  let first := (← Argument.optional Argument.integer args 2 "unpack").getD 1
  let last ←
    match ← Argument.optional Argument.integer args 3 "unpack" with
    | some last => pure last
    | none => pure (Int.ofNat (← tableLength id))
  if last < first then return replacing []
  else if unpackLimit ≤ last - first then throw .unpackTooMany
  else return replacing (valuesFrom (← getTable id) (last - first + 1).toNat first)

/-! ## Iteration -/

/-- The 64-bit integer after another one.  There is none after the greatest. -/
def nextInteger (i : Int) : Except Error Int :=
  if i = Value.greatestInteger then .error .panic else .ok (i + 1)

/-- `ipairs`: an iterator, the table and the start. -/
def ipairs (args : List Value) : Action Outcome := do
  let id ← Argument.table args 1 "ipairs"
  let step ← newFunction ⟨"ipairs_iter", .builtin (.base .ipairsStep)⟩
  return results [.function step, .table id, .ofNat 0]

/-- A step of `ipairs`: the next integer and its value, nil at the first absent one. -/
def ipairsStep (args : List Value) : Action Outcome := do
  let id ← Argument.table args 1 "ipairs"
  let i ← nextInteger (← Argument.integer args 2 "ipairs")
  let v := (← getTable id).getInteger i
  return results (if v.isNil then [.nil] else [.ofInt i, v])

/-- `pairs`: an iterator over the keys of the table as they are now. -/
def pairs (args : List Value) : Action Outcome := do
  let id ← Argument.table args 1 "pairs"
  let step ← newFunction ⟨"pairs_iter", .entries id (← tableKeys id)⟩
  return results [.function step, .table id, .nil]

/-- The first of some keys that has a value in a table, with the keys after it. -/
def firstPresent? (t : Table) : List Key → Option (Key × Value × List Key)
  | [] => none
  | key :: rest =>
      match t.get? key with
      | some v => some (key, v, rest)
      | none => firstPresent? t rest

/-- A step of the iterator over the entries of a table. -/
def stepEntries (self : FunctionId) (id : TableId) (pending : List Key) : Action Outcome := do
  match firstPresent? (← getTable id) pending with
  | some (key, v, rest) =>
      setBody self (.entries id rest)
      return results [key.toValue, v]
  | none =>
      setBody self (.entries id [])
      return results [.nil]

/-- `next`: the entry after a key. -/
def nextOf (args : List Value) : Action Outcome := do
  let id ← Argument.table args 1 "next"
  match ← nextEntry id (Argument.get args 2) with
  | some (key, v) => return results [key.toValue, v]
  | none => return results [.nil]

/-! ## Metatables -/

/-- `getmetatable`: the metatable, or what its `__metatable` field says instead. -/
def getMetatable (args : List Value) : Action Value := do
  let v ← Argument.any args 1 "getmetatable"
  match (← get).metatable? v with
  | none => return .nil
  | some mt =>
      let shown ← getField mt Event.metatable.field
      return if shown.isNil then .table mt else shown

/-- The metatable that an argument asks for, none if it is nil. -/
def newMetatable (args : List Value) : Except Error (Option TableId) :=
  match Argument.get args 2 with
  | .nil => .ok none
  | .table mt => .ok (some mt)
  | _ => .error (.badArgument 2 "setmetatable" .notMetatable)

/-- `setmetatable`: sets the metatable of a table, unless the present one is protected. -/
def setMetatable (args : List Value) : Action Value := do
  let id ← Argument.table args 1 "setmetatable"
  let mt ← newMetatable args
  let s ← get
  if ((s.handler? (.table id) .metatable)).isSome then throw .protectedMetatable
  else
    modifyTable id ({ · with metatable := mt })
    return .table id

/-! ## Raw access and loading -/

/-- `rawequal`. -/
def rawEqualOf (args : List Value) : Except Error Value := do
  let a ← Argument.any args 1 "rawequal"
  let b ← Argument.any args 2 "rawequal"
  return .boolean (a.rawEqual b)

/-- `assert`: the arguments, or an error if the first one counts as false. -/
def assertOf (args : List Value) : Except Error (List Value) := do
  let condition ← Argument.any args 1 "assert"
  if condition.isTruthy then return args
  else
    match Argument.get args 2 with
    | .nil => throw (.raised (.string "assertion failed!"))
    | message => throw (.raised message)

/-- `load`: a function from a source text, by the loader that is installed.  An error of
the loader is returned after nil. -/
def load (invoke : Invoke) (args : List Value) : Action (List Value) := do
  match (← get).loader with
  | none => throw (.unsupported "load")
  | some loader =>
      match Argument.get args 1 with
      | .string source =>
          catching (return [← callFirst invoke loader [.string source]]) fun e =>
            return [.nil, e.toValue]
      | _ => throw (.unsupported "load from a reader function")

/-! ## Functions -/

/-- Runs a global function. -/
def runBase (invoke : Invoke) (f : BaseFunction) (args : List Value) :
    Action Outcome := do
  match f with
  | .print => printLine invoke args; return results []
  | .kindName => return results [.string (← Argument.any args 1 "type").kind.name]
  | .assert => return results (← assertOf args)
  | .error => throw (.raised (firstValue args))
  | .toNumber => return results [← toNumberIn args]
  | .toText => return results [← toText invoke (← Argument.any args 1 "tostring")]
  | .select => select args
  | .ipairs => ipairs args
  | .ipairsStep => ipairsStep args
  | .pairs => pairs args
  | .next => nextOf args
  | .unpack => unpack args
  | .protectedCall =>
      let callee ← Argument.any args 1 "pcall"
      return results (← protectedCall invoke callee (args.drop 1))
  | .handledCall =>
      let callee ← Argument.any args 1 "xpcall"
      let handler ← Argument.any args 2 "xpcall"
      return results (← handledCall invoke callee handler (args.drop 2))
  | .getMetatable => return results [← getMetatable args]
  | .setMetatable => return results [← setMetatable args]
  | .rawGet =>
      let id ← Argument.table args 1 "rawget"
      return results [← rawGet id (Argument.get args 2)]
  | .rawSet =>
      let id ← Argument.table args 1 "rawset"
      rawSet id (Argument.get args 2) (Argument.get args 3)
      return results [.table id]
  | .rawEqual => return results [← rawEqualOf args]
  | .collectGarbage => return results [.ofNat 0]
  | .load => return results (← load invoke args)
  | .require => return results [← requireModule invoke (← Argument.string args 1 "require")]
  | .createModule =>
      let name ← Argument.string args 1 "module"
      return results [.table (← createModule invoke name (args.drop 1))]

end LuaRuntime

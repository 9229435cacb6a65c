import LuaRuntime.Library.Base
import LuaRuntime.Library.Catalogue
import LuaRuntime.Library.String
import LuaRuntime.Library.Table
import LuaRuntime.Operator.Arithmetic
import LuaRuntime.Regex.Engine
import LuaRuntime.Script.Entries
import LuaRuntime.Script.Expr
import LuaRuntime.Text.Escape

/-!
# Running scripts

`eval` evaluates an expression by recursion on it.  Operands are evaluated from left to
right, and then the operation is applied to their values.  An error stops the evaluation.
-/

namespace LuaRuntime

/-! ## Operands -/

/-- An operand that must be a table. -/
def tableOperand : Value → Except Error TableId
  | .table id => .ok id
  | v => .error (.index v.kind .nil)

/-- A table if the value is one. -/
def tableOrNone : Value → Option TableId
  | .table id => some id
  | _ => none

/-- The first operand. -/
def operand₁ (operands : List Value) : Value := operands.getD 0 .nil

/-- The second operand. -/
def operand₂ (operands : List Value) : Value := operands.getD 1 .nil

/-- The third operand. -/
def operand₃ (operands : List Value) : Value := operands.getD 2 .nil

/-- The number a value stands for, zero if it stands for none. -/
def numberOrZero (v : Value) : Double := v.toNumber?.getD (Double.ofNat 0)

/-- An optional integer in decimal, nil if there is none. -/
def integerText : Option Int → Value
  | some i => .string (toString i)
  | none => .nil

/-- An optional string, nil if there is none. -/
def optionalString : Option String → Value
  | some s => .string s
  | none => .nil

/-! ## Tables -/

/-- Some keys of a table, each with its value. -/
def entriesOf (t : Table) (keys : List Key) : List Value :=
  keys.flatMap fun key => [key.toValue, t.get key]

/-- The keys and the values of a table, by at most `count` steps of a traversal. -/
def walkFrom (id : TableId) : (count : Nat) → Value → Action (List Value)
  | 0, _ => return []
  | count + 1, key => do
      match ← nextEntry id key with
      | some (next, v) => return next.toValue :: v :: (← walkFrom id count next.toValue)
      | none => return []

/-- The entries that an iterator gives when it is called with a state and a control value, at
most `count` times, as long as the key is not nil. -/
def iterateWith (invoke : Invoke) (iterator state : Value) :
    (count : Nat) → (control : Value) → Action (List KeyedValue)
  | 0, _ => return []
  | count + 1, control => do
      let found ← call invoke iterator [state, control]
      let key := operand₁ found
      if key.isNil then return []
      else return ⟨key, operand₂ found⟩ :: (← iterateWith invoke iterator state count key)

/-- The most steps of an iteration.  The iterator of `pairs` ends before, unless a table
has more entries, but another iterator may never end. -/
def iterationLimit : Nat := 0x1000000

/-- The keys and the values of a table by the global `pairs`, with the runs of keys in
order. -/
def iterateTable (invoke : Invoke) (id : TableId) : Action (List Value) := do
  let triple ← call invoke (← getGlobal "pairs") [.table id]
  let entries ←
    iterateWith invoke (operand₁ triple) (operand₂ triple) iterationLimit (operand₃ triple)
  return (sortRuns entries).flatMap KeyedValue.toList

/-! ## Text -/

/-- The text of a value that shows its kind: strings are quoted and functions named. -/
def shownText (s : State) : Value → String
  | .string text => String.ofList (Text.escape text.toList)
  | .function id =>
      "function '" ++ (s.function id).name ++ "': " ++ Value.addressText (2 * id.index + 1)
  | v => v.rawText

/-! ## Globals and arguments -/

/-- A global, or a field of a global table. -/
def lookupPath (path : String) : Action Value := do
  match Path.split? path with
  | none => getGlobal path
  | some (library, field) =>
      match ← getGlobal library with
      | .table id => getField id field
      | _ => return .nil

/-- The result of a check of an argument. -/
def runCheck (check : ArgumentCheck) (args : List Value) (position : Nat) (function : String) :
    Except Error Value := do
  match check with
  | .any => Argument.any args position function
  | .table => return .table (← Argument.table args position function)
  | .number => return .number (← Argument.number args position function)
  | .integer => return integerText (some (← Argument.integer args position function))
  | .string => return .string (← Argument.string args position function)
  | .optionalNumber =>
      return .ofNumber? (← Argument.optional Argument.number args position function)
  | .optionalInteger =>
      return integerText (← Argument.optional Argument.integer args position function)
  | .optionalString =>
      return optionalString (← Argument.optional Argument.string args position function)

/-! ## Patterns -/

/-- The number of bytes before a place. -/
def byteOffset (c : Cursor) : Value := .ofNat c.offset.byteIdx

/-- A capture as two values: its offsets in bytes, or a mark and a position. -/
def captureValues : Capture → List Value
  | .text start stop => [byteOffset start, byteOffset stop]
  | .position place => [.string "pos", .ofNat place]

/-- The first match of a pattern from an offset in bytes on: its offsets in bytes, whether
the pattern is anchored, the captures and the values of the match.  An anchored pattern
matches only at the start of a character. -/
def findAtOffset (p : CompiledPattern) (s : String) (offset : Nat) : List Value :=
  let start := (Cursor.fromOffset? s offset).filter fun c =>
    !p.anchored || c.offset.byteIdx == offset
  match start.bind (p.findAt s) with
  | none => []
  | some m =>
      [byteOffset m.start, byteOffset m.stop, .boolean p.anchored] ++
        m.captures.flatMap captureValues ++ m.values s

/-! ## Operations -/

/-- Applies an operation to the values of its operands. -/
def runOperation (invoke : Invoke) (operation : Operation) (vs : List Value) :
    Action (List Value) := do
  let a := operand₁ vs
  let b := operand₂ vs
  match operation with
  | .values => return vs
  | .first => return [a]
  | .count => return [.ofNat vs.length]
  | .negation => return [.boolean !a.isTruthy]
  | .raise => throw (.raised a)
  | .global path => return [← lookupPath path]
  | .call => LuaRuntime.call invoke a (vs.drop 1)
  | .callFirst => return [← LuaRuntime.callFirst invoke a (vs.drop 1)]
  | .callOutcome =>
      let outcome ← LuaRuntime.callOutcome invoke a (vs.drop 1)
      return .boolean outcome.substituted :: outcome.values
  | .method name => callMethod invoke a name (vs.drop 1)
  | .protectedCall => LuaRuntime.protectedCall invoke a (vs.drop 1)
  | .handledCall => LuaRuntime.handledCall invoke a b (vs.drop 2)
  | .arithmetic .negate => return [← LuaRuntime.arithmetic invoke .negate a a]
  | .arithmetic operator => return [← LuaRuntime.arithmetic invoke operator a b]
  | .equal => return [.boolean (← equals invoke a b)]
  | .less => return [.boolean (← lessThan invoke a b)]
  | .lessEqual => return [.boolean (← LuaRuntime.lessEqual invoke a b)]
  | .rawEqual => return [.boolean (a.rawEqual b)]
  | .concat => return [← LuaRuntime.concat invoke a b]
  | .index => return [← LuaRuntime.index invoke a b]
  | .setIndex => LuaRuntime.setIndex invoke a b (operand₃ vs); return []
  | .length => return [← LuaRuntime.length invoke a]
  | .toText => return [← LuaRuntime.toText invoke a]
  | .text => return [.string (← LuaRuntime.text invoke a)]
  | .kindName => return [.string a.kind.name]
  | .truthy => return [.boolean a.isTruthy]
  | .toNumber => return [.ofNumber? a.toNumber?]
  | .toInteger => return [integerText a.toInteger?]
  | .rawText => return [.string a.rawText]
  | .shownText => return [.string (LuaRuntime.shownText (← get) a)]
  | .functionName =>
      match a with
      | .function id => return [.string ((← get).function id).name]
      | _ => return [.nil]
  | .parseNumber =>
      match a with
      | .string s => return [.ofNumber? (Numeral.parse? s)]
      | _ => return [.nil]
  | .numberText => return [.string (Double.numberText (numberOrZero a))]
  | .fixedText decimals => return [.string (Double.fixedText decimals (numberOrZero a))]
  | .exponentText decimals upper =>
      return [.string (Double.exponentText decimals upper (numberOrZero a))]
  | .generalText precision upper alternate =>
      return [.string (Double.generalText precision upper alternate (numberOrZero a))]
  | .rawGet => return [← LuaRuntime.rawGet (← tableOperand a) b]
  | .rawSet => LuaRuntime.rawSet (← tableOperand a) b (operand₃ vs); return []
  | .getString name => return [← getField (← tableOperand a) name]
  | .setString name => setField (← tableOperand a) name b; return []
  | .getInteger i => return [(← getTable (← tableOperand a)).getInteger i]
  | .rawLength => return [.ofNat (← tableLength (← tableOperand a))]
  | .greatestKey => return [.number (← getTable (← tableOperand a)).greatestKey]
  | .entryCount => return [.ofNat (← getTable (← tableOperand a)).size]
  | .isArray => return [.boolean (← getTable (← tableOperand a)).isArray]
  | .toArray => modifyTable (← tableOperand a) Table.toArray; return []
  | .toSparse => modifyTable (← tableOperand a) Table.toSparse; return []
  | .items => tableItems (← tableOperand a)
  | .insertItem position =>
      LuaRuntime.insertItem (← tableOperand a) position b
      return []
  | .removeItem position => return [← LuaRuntime.removeItem (← tableOperand a) position]
  | .replaceItems => modifyTable (← tableOperand a) (·.replaceItems (vs.drop 1)); return []
  | .entries =>
      let id ← tableOperand a
      return entriesOf (← getTable id) (← tableKeys id)
  | .walk =>
      let id ← tableOperand a
      walkFrom id ((← getTable id).size + 1) .nil
  | .iterate => iterateTable invoke (← tableOperand a)
  | .metatable => return [.ofTable? ((← get).metatable? a)]
  | .setMetatable =>
      modifyTable (← tableOperand a) ({ · with metatable := tableOrNone b })
      return [a]
  | .setGlobal name => LuaRuntime.setGlobal name a; return []
  | .setStringMetatable =>
      modify fun s => { s with stringMetatable := tableOrNone a }
      return []
  | .setLoader => modify fun s => { s with loader := some a }; return []
  | .createModule name => return [.table (← LuaRuntime.createModule invoke name vs)]
  | .require name => return [← requireModule invoke name]
  | .openLibrary chosen => openChosen chosen; return []
  | .openEcho name => installLibrary (echoLibrary name); return [.boolean true]
  | .check check position function => return [← runCheck check vs position function]
  | .isPlain pattern => return [.boolean (Pattern.isPlain pattern)]
  | .findPattern pattern text offset =>
      match CompiledPattern.new Regex.backtracking pattern with
      | .ok p => return findAtOffset p text offset
      | .error fault => throw (.pattern fault)

/-! ## Expressions -/

/-- Runs an action for each of `count` integers from `first` on, and gathers the values. -/
def forIntegers (action : Int → Action (List Value)) :
    (count : Nat) → (first : Int) → Action (List Value)
  | 0, _ => return []
  | count + 1, i => do
      let values ← action i
      return values ++ (← forIntegers action count (i + 1))

/-- Sets a variable. -/
def setVariable (name : String) (v : Value) : Action Unit :=
  modify fun s => { s with bindings := s.bindings.insert name v }

mutual

/-- Evaluates an expression inside a function called with `args`. -/
def eval (invoke : Invoke) (args : List Value) : Expr → Action (List Value)
  | .nil => return [.nil]
  | .boolean b => return [.boolean b]
  | .number n => return [.number n]
  | .string s => return [.string s]
  | .table none flat => do
      let flat ← evalOperands invoke args flat
      return [.table (← newTable (← Table.construct none flat))]
  | .table (some positional) flat => do
      let positional ← evalOperands invoke args positional
      let flat ← evalOperands invoke args flat
      return [.table (← newTable (← Table.construct (some positional) flat))]
  | .array items => do
      return [.table (← newTable (Table.ofList (← evalOperands invoke args items)))]
  | .function name substitutes body =>
      return [.function (← newFunction ⟨name, .script substitutes body⟩)]
  | .read name => return [(← get).bindings.getD name .nil]
  | .assign name e => do
      let v := firstValue (← eval invoke args e)
      setVariable name v
      return [v]
  | .argument position => return [Argument.get args position]
  | .arguments dropped => return args.drop dropped
  | .argumentCount => return [.ofNat args.length]
  | .sequence steps => evalSequence invoke args steps
  | .choose condition yes none => do
      if (firstValue (← eval invoke args condition)).isTruthy then eval invoke args yes
      else return []
  | .choose condition yes (some no) => do
      if (firstValue (← eval invoke args condition)).isTruthy then eval invoke args yes
      else eval invoke args no
  | .loop name first last body => do
      let first := ((firstValue (← eval invoke args first)).toInteger?).getD 0
      let last := ((firstValue (← eval invoke args last)).toInteger?).getD 0
      let step (i : Int) : Action (List Value) := do
        setVariable name (.ofInt i)
        eval invoke args body
      forIntegers step (last - first + 1).toNat first
  | .splice e => eval invoke args e
  | .apply operation operands => do
      runOperation invoke operation (← evalOperands invoke args operands)

/-- Evaluates operands from left to right. -/
def evalOperands (invoke : Invoke) (args : List Value) : List Expr → Action (List Value)
  | [] => return []
  | e :: rest => do
      let values ← eval invoke args e
      let values := if e.isSplice then values else [firstValue values]
      return values ++ (← evalOperands invoke args rest)

/-- Evaluates expressions in order, and gives the values of the last one. -/
def evalSequence (invoke : Invoke) (args : List Value) : List Expr → Action (List Value)
  | [] => return []
  | [e] => eval invoke args e
  | e :: rest => do
      let _ ← eval invoke args e
      evalSequence invoke args rest

end

end LuaRuntime

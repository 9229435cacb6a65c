import LuaRuntime.Library.Argument
import LuaRuntime.Library.MergeSort
import LuaRuntime.Operator.Compare
import LuaRuntime.State.Basic

/-!
# Functions on tables

These functions treat a table as a sequence, and put it into the array layout.  Sorting
works on a copy of the items: if a comparison fails, the table stays as the comparisons
left it.
-/

namespace LuaRuntime

/-! ## Joining -/

/-- The text of a table at an integer, which must be a string or a number. -/
def itemText (t : Table) (i : Int) : Except Error String :=
  let v := t.getInteger i
  if v.isTextual then .ok v.rawText else .error (.concatenateItem i v.kind)

/-- The texts of a table at consecutive integers. -/
def itemTexts (t : Table) : (count : Nat) → Int → Except Error (List String)
  | 0, _ => .ok []
  | count + 1, i => do
      let first ← itemText t i
      return first :: (← itemTexts t count (i + 1))

/-- `table.concat`: the texts of a range of items with a separator between them. -/
def concatItems (args : List Value) : Action String := do
  let id ← Argument.table args 1 "concat"
  let separator := (← Argument.optional Argument.string args 2 "concat").getD ""
  let count ← tableItemCount id
  let first := (← Argument.optional Argument.integer args 3 "concat").getD 1
  let last := (← Argument.optional Argument.integer args 4 "concat").getD count
  return separator.intercalate (← itemTexts (← getTable id) (last - first + 1).toNat first)

/-! ## Inserting and removing -/

/-- `table.insert`: inserts a value at a position, or at the end. -/
def insertAt (args : List Value) : Action Unit := do
  let id ← Argument.table args 1 "insert"
  let count ← tableItemCount id
  match args with
  | [_, v] => insertItem id (count + 1) v
  | [_, _, v] =>
      let position ← Argument.integer args 2 "insert"
      if position < 1 then throw (.badArgument 2 "insert" .positionOutOfBounds)
      else insertItem id position.toNat v
  | _ => throw (.argumentCount "insert")

/-- `table.remove`: removes the item at a position, or the last one.  An empty table gives
no result. -/
def removeAt (args : List Value) : Action (List Value) := do
  let id ← Argument.table args 1 "remove"
  let count ← tableItemCount id
  if count = 0 then return []
  else
    let position := (← Argument.optional Argument.integer args 2 "remove").getD count
    if position < 1 then return [.nil]
    else return [← removeItem id position.toNat]

/-! ## Sorting -/

/-- Whether an item comes before another, by a function or by the order of values. -/
def sortLess (invoke : Invoke) (comparison a b : Value) : Action Bool :=
  if comparison.isNil then lessThan invoke a b
  else return (← callFirst invoke comparison [a, b]).isTruthy

/-- `table.sort`: puts the items of a table in order. -/
def sortTable (invoke : Invoke) (args : List Value) : Action Unit := do
  let id ← Argument.table args 1 "sort"
  let comparison := Argument.get args 2
  if !comparison.isNil && !comparison.isFunction then
    throw (.badArgument 2 "sort" (.expected "function" comparison.kind))
  else
    let items ← tableItems id
    if items.length ≤ 1 then return ()
    else
      let sorted ← MergeSort.sort (sortLess invoke comparison) items
      modifyTable id (·.replaceItems sorted)

/-! ## Functions -/

/-- Runs a function on tables. -/
def runTable (invoke : Invoke) (f : TableFunction) (args : List Value) : Action (List Value) := do
  match f with
  | .concat => return [.string (← concatItems args)]
  | .length => return [.ofNat (← tableLength (← Argument.table args 1 "getn"))]
  | .insert => insertAt args; return []
  | .greatestKey => return [.number (← getTable (← Argument.table args 1 "maxn")).greatestKey]
  | .remove => removeAt args
  | .sort => sortTable invoke args; return []

end LuaRuntime

import LuaRuntime.Error

/-!
# Keys of a table

A key is a value that can be looked up in a table.  There are five kinds of key, each
kept in a part of the table of its own: strings, positive integers up to `2 ^ 53`, all
other numbers, booleans, and tables and functions.

`Key.ofValue?` sorts a value into one of the five.  Nil is no key, nor is a number that
is not a number.  Two values give the same key when they are raw equal: an integer and the
double equal to it are one key, and so are the two zeros, while the number 1 and the
string "1" are two.
-/

namespace LuaRuntime

/-- The identity of a table or a function used as a key. -/
inductive ObjectId where
  | table (id : TableId)
  | function (id : FunctionId)
deriving Repr, DecidableEq

/-- A key of a table. -/
inductive Key where
  /-- A string. -/
  | string (s : String)
  /-- An integer from 1 to `greatestIndex`. -/
  | index (i : Nat)
  /-- Any other number, as its place in the order of all doubles.  Negative zero has the
  place of zero. -/
  | number (rank : UInt64)
  /-- A boolean. -/
  | boolean (b : Bool)
  /-- A table or a function, by identity. -/
  | object (id : ObjectId)
deriving Repr, DecidableEq

namespace Key

/-- The greatest integer that is an index, `2 ^ 53`: all integers up to it are doubles. -/
def greatestIndex : Nat := 0x20000000000000

/-- The key of a number. -/
def ofNumber? (x : Double) : Option Key :=
  if x.isNaN then none
  else
    match if x.isIntegral then x.toInt? else none with
    | some i =>
        if 1 ≤ i ∧ i ≤ greatestIndex then some (.index i.toNat) else some (.number x.rank)
    | none => some (.number x.rank)

/-- The key of a value, if it has one. -/
def ofValue? : Value → Option Key
  | .nil => none
  | .boolean b => some (.boolean b)
  | .number x => ofNumber? x
  | .string s => some (.string s)
  | .table id => some (.object (.table id))
  | .function id => some (.object (.function id))

/-- The value of a key. -/
def toValue : Key → Value
  | .string s => .string s
  | .index i => .ofNat i
  | .number rank => .number (Double.ofRank rank)
  | .boolean b => .boolean b
  | .object (.table id) => .table id
  | .object (.function id) => .function id

/-- The key of a value that is to be written at, or the reason why there is none. -/
def check (v : Value) : Except Error Key :=
  match ofValue? v with
  | some key => .ok key
  | none => .error (if v.isNil then .nilKey else .nanKey)

end Key

end LuaRuntime

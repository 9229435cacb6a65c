import LuaRuntime.Table.Key

/-!
# Entries in order

An iterator is free to give the entries of a table in any order.  A script shows them in the
order in which they came, except for two kinds of keys, whose order says nothing: strings,
and numbers that are no index.  Each longest run of entries with keys of one of these kinds
is put in ascending order.  Entries of equal keys keep their order.
-/

namespace LuaRuntime

/-- A key and its value, as an iterator gives them. -/
structure KeyedValue where
  /-- The key. -/
  key : Value
  /-- The value. -/
  value : Value

/-- The two values of an entry. -/
def KeyedValue.toList (e : KeyedValue) : List Value := [e.key, e.value]

/-- Whether a number is an index. -/
def isIndex (x : Double) : Bool :=
  match Key.ofNumber? x with
  | some (.index _) => true
  | _ => false

/-- Whether two keys are of one kind that is put in order. -/
def sortsWith : Value → Value → Bool
  | .string _, .string _ => true
  | .number x, .number y => !isIndex x && !isIndex y
  | _, _ => false

/-- Whether a key may stand before another of its kind. -/
def notAfter : Value → Value → Bool
  | .string s, .string t => !decide (t < s)
  | .number x, .number y => decide (x.rank ≤ y.rank)
  | _, _ => true

/-- The entries with each run of strings and each run of other numbers in order. -/
def sortRuns (entries : List KeyedValue) : List KeyedValue :=
  (entries.splitBy fun a b => sortsWith a.key b.key).flatMap fun run =>
    run.mergeSort fun a b => notAfter a.key b.key

end LuaRuntime

import Std.Data.HashMap
import Std.Data.TreeMap
import LuaRuntime.Table.Key

/-!
# Tables

A table is a finite map from keys to values other than nil.  Its five parts hold the five
kinds of key.

The integers from 1 on have two layouts.  In the *sparse* layout they are one map.  In
the *array* layout the run from 1 up to the first gap is a dense sequence of items, and
the indices past the gap are an overflow map.  The list operations of the library use the
array layout, and a plain write to an index goes back to the sparse one.  A switch of the
layout moves entries and changes none.

Two results are remembered.  `border` is the length found last, forgotten at every write.
`traversal` is the order in which `next` visits the keys.  It is forgotten when a key is
added and kept when one is removed, so a walk may clear the entries that it visits.
`hint` is the place in the traversal of the key that `next` returned last.

`get?` reads a table at a key, and all other reads go through it.  `put` is the write at
a key, with nil for removal.  `rawSet` is the write at a value, which need not be a key.
If it is none, `rawSet` only forgets what a write forgets, and the caller raises the error
that `Key.check` gives.

The maps of strings and of other numbers list their keys in an order that says nothing, and
that may be another one after any write.  An `Arrangement` is what it may be at one moment.
-/

namespace LuaRuntime

open Std (HashMap TreeMap)

/-! ## The parts of a table -/

/-- The entries at indices, in one of the two layouts. -/
inductive Indexed where
  /-- The run from 1 on as items, and the indices after the first gap. -/
  | array (items : Array Value) (overflow : HashMap Nat Value)
  /-- All indices alike. -/
  | sparse (entries : HashMap Nat Value)
deriving Inhabited

/-- A table. -/
structure Table where
  /-- The entries at strings. -/
  strings : TreeMap String Value := {}
  /-- The entries at indices. -/
  indexed : Indexed := .sparse {}
  /-- The entries at other numbers, by their order. -/
  numbers : TreeMap UInt64 Value := {}
  /-- The entry at false. -/
  atFalse : Option Value := none
  /-- The entry at true. -/
  atTrue : Option Value := none
  /-- The entries at tables and functions, oldest first. -/
  objects : Array (ObjectId × Value) := #[]
  /-- The metatable. -/
  metatable : Option TableId := none
  /-- The length, if it is known. -/
  border : Option Nat := none
  /-- The keys in the order of a traversal, if one is under way. -/
  traversal : Option (Array Key) := none
  /-- The place in the traversal of the key returned last. -/
  hint : Nat := 0
deriving Inhabited

/-! ## Arrangements -/

/-- The order in which the maps of strings and of other numbers list their keys, given in
ascending order. -/
structure Arrangement where
  /-- The strings, as they are listed. -/
  strings : List String → List String
  /-- The other numbers, as they are listed. -/
  numbers : List UInt64 → List UInt64
  strings_perm (keys : List String) : (strings keys).Perm keys
  numbers_perm (keys : List UInt64) : (numbers keys).Perm keys

/-- Both maps list their keys in ascending order. -/
def Arrangement.ascending : Arrangement := ⟨id, id, .refl, .refl⟩

/-! ## Entries at indices -/

namespace Indexed

/-- The value at an index. -/
def get? (part : Indexed) (i : Nat) : Option Value :=
  match part with
  | .array items overflow =>
      if 0 < i ∧ i ≤ items.size then items[i - 1]? else overflow[i]?
  | .sparse entries => entries[i]?

/-- Moves the entries of the overflow that continue the items to their end, `fuel` of
them at most. -/
def absorb : (fuel : Nat) → Array Value → HashMap Nat Value → Array Value × HashMap Nat Value
  | 0, items, overflow => (items, overflow)
  | fuel + 1, items, overflow =>
      match overflow[items.size + 1]? with
      | some v => absorb fuel (items.push v) (overflow.erase (items.size + 1))
      | none => (items, overflow)

/-- Items and overflow as an array layout, with the items taken as far as they go. -/
def ofParts (items : Array Value) (overflow : HashMap Nat Value) : Indexed :=
  let (items, overflow) := absorb overflow.size items overflow
  .array items overflow

/-- The array layout. -/
def toArray : Indexed → Indexed
  | .array items overflow => .array items overflow
  | .sparse entries => ofParts #[] entries

/-- A map with values written from an index on, nil removing the entry. -/
def writeFrom : Nat → List Value → HashMap Nat Value → HashMap Nat Value
  | _, [], entries => entries
  | i, v :: vs, entries =>
      writeFrom (i + 1) vs (if v.isNil then entries.erase i else entries.insert i v)

/-- The entries as one map. -/
def entries : Indexed → HashMap Nat Value
  | .array items overflow => writeFrom 1 items.toList overflow
  | .sparse entries => entries

/-- The sparse layout. -/
def toSparse (part : Indexed) : Indexed := .sparse part.entries

/-- The entries with a value written at an index, in the sparse layout. -/
def put (i : Nat) (v : Value) (part : Indexed) : Indexed :=
  .sparse (writeFrom i [v] part.entries)

/-- The length of the run of indices from `i + 1` on, added to `i`. -/
def runFrom (entries : HashMap Nat Value) : (fuel : Nat) → Nat → Nat
  | 0, i => i
  | fuel + 1, i => if entries.contains (i + 1) then runFrom entries fuel (i + 1) else i

/-- The length of the run of indices from 1 on. -/
def run : Indexed → Nat
  | .array items _ => items.size
  | .sparse entries => runFrom entries entries.size 0

/-- The keys of a map, ascending. -/
def sortedKeys (entries : HashMap Nat Value) : List Nat := entries.keys.mergeSort

/-- The greatest key of a map, zero if there is none. -/
def greatestKey (entries : HashMap Nat Value) : Nat :=
  entries.fold (fun greatest i _ => max greatest i) 0

/-- All indices, ascending. -/
def indices : Indexed → List Nat
  | .array items overflow => List.range' 1 items.size ++ sortedKeys overflow
  | .sparse entries => sortedKeys entries

/-- The greatest index, zero if there is none. -/
def greatest : Indexed → Nat
  | .array items overflow => max items.size (greatestKey overflow)
  | .sparse entries => greatestKey entries

/-- The number of entries. -/
def size : Indexed → Nat
  | .array items overflow => items.size + overflow.size
  | .sparse entries => entries.size

/-- Whether the layout is the array layout. -/
def isArray : Indexed → Bool
  | .array .. => true
  | .sparse _ => false

end Indexed

/-! ## Entries at objects -/

/-- The place of an object among the entries. -/
def placeOfObject? (id : ObjectId) (objects : Array (ObjectId × Value)) : Option Nat :=
  objects.findIdx? fun entry => entry.1 == id

/-- The value at an object. -/
def objectValue? (id : ObjectId) (objects : Array (ObjectId × Value)) : Option Value :=
  (objects.find? fun entry => entry.1 == id).map (·.2)

/-- The entries at objects with a value written at one, nil removing the entry.  A new object
goes to the end. -/
def putObject (id : ObjectId) (v : Value) (objects : Array (ObjectId × Value)) :
    Array (ObjectId × Value) :=
  match placeOfObject? id objects with
  | some i => if v.isNil then objects.eraseIdxIfInBounds i else objects.setIfInBounds i (id, v)
  | none => if v.isNil then objects else objects.push (id, v)

/-! ## Reading -/

namespace Table

/-- The value at a key. -/
def get? (t : Table) : Key → Option Value
  | .string s => t.strings[s]?
  | .index i => t.indexed.get? i
  | .number rank => t.numbers[rank]?
  | .boolean b => if b then t.atTrue else t.atFalse
  | .object id => objectValue? id t.objects

/-- The value at a key, nil if there is none. -/
def get (t : Table) (key : Key) : Value := (t.get? key).getD .nil

/-- The value at a value, nil if that is no key. -/
def rawGet (t : Table) (v : Value) : Value :=
  match Key.ofValue? v with
  | some key => t.get key
  | none => .nil

/-- The value at a string. -/
def getString (t : Table) (s : String) : Value := t.get (.string s)

/-- The value at an integer.  A positive integer is looked up among the indices only. -/
def getInteger (t : Table) (i : Int) : Value :=
  if i < 1 then t.rawGet (.ofInt i) else t.get (.index i.toNat)

/-- The number of entries. -/
def size (t : Table) : Nat :=
  t.strings.size + t.indexed.size + t.numbers.size + t.atFalse.toList.length
    + t.atTrue.toList.length + t.objects.size

/-- The keys in the order of a traversal: strings as they are arranged, indices in ascending
order, other numbers as they are arranged, booleans, and objects in the order in which they
were added. -/
def keys (t : Table) (a : Arrangement) : List Key :=
  (a.strings t.strings.keys).map .string
    ++ t.indexed.indices.map .index
    ++ (a.numbers t.numbers.keys).map .number
    ++ (if t.atFalse.isSome then [.boolean false] else [])
    ++ (if t.atTrue.isSome then [.boolean true] else [])
    ++ t.objects.toList.map fun entry => .object entry.1

/-- The greatest positive numeric key, zero if there is none. -/
def greatestKey (t : Table) : Double :=
  t.numbers.keys.foldl
    (fun best rank =>
      let x := Double.ofRank rank
      if best.less x then x else best)
    (Double.ofNat t.indexed.greatest)

/-! ## Writing -/

/-- A map with a value written at a key, nil removing the entry. -/
def putIn {κ : Type} [Ord κ] (key : κ) (v : Value) (entries : TreeMap κ Value) :
    TreeMap κ Value :=
  if v.isNil then entries.erase key else entries.insert key v

/-- The value as an entry, none for nil. -/
def ofValue? (v : Value) : Option Value := if v.isNil then none else some v

/-- The table with a value written at a key, nil removing the entry.  Writing at an index
goes back to the sparse layout. -/
def put (t : Table) (key : Key) (v : Value) : Table :=
  match key with
  | .string s => { t with strings := putIn s v t.strings }
  | .index i => { t with indexed := t.indexed.put i v }
  | .number rank => { t with numbers := putIn rank v t.numbers }
  | .boolean false => { t with atFalse := ofValue? v }
  | .boolean true => { t with atTrue := ofValue? v }
  | .object id => { t with objects := putObject id v t.objects }

/-- The table without what a write forgets: the length always, and the traversal if the
write adds a key. -/
def forget (t : Table) (adds : Bool) : Table :=
  { t with border := none, traversal := if adds then none else t.traversal }

/-- The table after a write at a value.  If that is no key, nothing is written. -/
def rawSet (t : Table) (key v : Value) : Table :=
  let t := t.forget (!v.isNil && (t.rawGet key).isNil)
  match Key.ofValue? key with
  | some key => t.put key v
  | none => t

/-- The table after a write at a string. -/
def setString (t : Table) (s : String) (v : Value) : Table :=
  (t.forget (!v.isNil && (t.get? (.string s)).isNone)).put (.string s) v

/-! ## Layout and length -/

/-- The table in the array layout. -/
def toArray (t : Table) : Table := { t with indexed := t.indexed.toArray }

/-- The table in the sparse layout. -/
def toSparse (t : Table) : Table :=
  if t.indexed.isArray then { t with indexed := t.indexed.toSparse } else t

/-- Whether the table is in the array layout. -/
def isArray (t : Table) : Bool := t.indexed.isArray

/-- The length: the number of indices from 1 up to the first absent one. -/
def length (t : Table) : Nat := t.border.getD t.indexed.run

/-- The table with its length remembered. -/
def measured (t : Table) : Table := { t with border := some t.length }

/-- The items of the array layout. -/
def items (t : Table) : Array Value :=
  match t.indexed.toArray with
  | .array items _ => items
  | .sparse _ => #[]

/-! ## Construction -/

/-- The table with the values of a list at the indices from 1 on, in the array layout. -/
def ofList (values : List Value) : Table :=
  { indexed := .ofParts #[] (Indexed.writeFrom 1 values {}) }

/-- The table with keys and values of a flat list written one after the other.  A pair
with the value nil writes nothing, but its key must be one. -/
def ofPairs : List Value → Table → Except Error Table
  | [], t => .ok t
  | [_], _ => .error .unpairedKey
  | key :: v :: rest, t =>
      match Key.check key with
      | .ok _ => ofPairs rest (if v.isNil then t else t.rawSet key v)
      | .error e => .error e

/-- The table with the values of a list written at the indices from `i` on. -/
def overlay : Nat → List Value → Table → Table
  | _, [], t => t
  | i, v :: vs, t => overlay (i + 1) vs (t.rawSet (.ofNat i) v)

/-- The table of a constructor: a flat list of keys and values, and then an optional list
of values over the indices from 1 on.  Only with that list is the layout the array
layout. -/
def construct (positional : Option (List Value)) (flat : List Value) : Except Error Table :=
  if flat.length % 2 ≠ 0 then .error .unpairedKey
  else
    (ofPairs flat {}).map fun t =>
      match positional with
      | some values => (overlay 1 values t).toArray
      | none => t

end Table

end LuaRuntime

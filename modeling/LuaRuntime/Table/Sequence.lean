import LuaRuntime.Table.Basic

/-!
# Tables as sequences

Inserting and removing an item of a table moves the items after it by one place.  These
operations put the table into the array layout and forget its length and its traversal.
They keep to the rule of the layout: items hold no nil, and the overflow never continues
them.  Inserting nil therefore cuts the items off at the place of the nil and moves the rest
to the overflow.
-/

namespace LuaRuntime

namespace Indexed

/-- The entries with a value inserted at a position of the items. -/
def insertItem (position : Nat) (v : Value) : Indexed → Indexed
  | .array items overflow =>
      if v.isNil then
        let tail := (items.extract (position - 1) items.size).toList
        .array (items.extract 0 (position - 1)) (writeFrom (position + 1) tail overflow)
      else .ofParts (items.insertIdxIfInBounds (position - 1) v) overflow
  | .sparse entries => .sparse entries

/-- The entries without the item at a position. -/
def removeItem (position : Nat) : Indexed → Indexed
  | .array items overflow => .array (items.eraseIdxIfInBounds (position - 1)) overflow
  | .sparse entries => .sparse entries

/-- The entries with the values of a list over the indices from 1 on.  As many values as
there are items, none of them nil, take the place of the items. -/
def replaceItems (values : List Value) : Indexed → Indexed
  | .array items overflow =>
      if items.size = values.length ∧ values.all (fun v => !v.isNil) then
        .array values.toArray overflow
      else .ofParts #[] (writeFrom 1 values (entries (.array items overflow)))
  | .sparse entries => .sparse entries

end Indexed

namespace Table

/-- The table made ready for a change of its items. -/
def forSequence (t : Table) : Table :=
  { t.toArray with border := none, traversal := none }

/-- The item at a position, counted from 1. -/
def item? (t : Table) : (position : Nat) → Option Value
  | 0 => none
  | i + 1 => t.items[i]?

/-- Whether a value can be inserted at a position: it is that of an item, or the one after
the last. -/
def hasRoomAt (t : Table) (position : Nat) : Bool := 0 < position && position ≤ t.items.size + 1

/-- The table with a value inserted at a position that has room. -/
def insertItem (t : Table) (position : Nat) (v : Value) : Table :=
  let t := t.forSequence
  { t with indexed := t.indexed.insertItem position v }

/-- The table without the item at a position. -/
def removeItem (t : Table) (position : Nat) : Table :=
  let t := t.forSequence
  { t with indexed := t.indexed.removeItem position }

/-- The table with the values of a list over the indices from 1 on. -/
def replaceItems (t : Table) (values : List Value) : Table :=
  let t := t.forSequence
  { t with indexed := t.indexed.replaceItems values }

end Table

end LuaRuntime

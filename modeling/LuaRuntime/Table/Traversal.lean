import LuaRuntime.Table.Basic

/-!
# Walking a table

`next` returns the entry after a given key, and the first entry after nil.  The order of
the keys is fixed at the first step and remembered in the table until a key is added.  A
key that was removed meanwhile stays in the order and is passed over, so a walk may clear
the entries it has seen, the current one included.

A step that finds no order remembered takes the keys as they are arranged at that moment.

The place of the key returned last is remembered too.  It only saves the search for the
key: the answer is the same wherever the hint points.
-/

namespace LuaRuntime

namespace Table

/-- The order in which a walk visits the keys. -/
def order (t : Table) (a : Arrangement) : Array Key := t.traversal.getD (t.keys a).toArray

/-- The place of a key in an order, looked for first where the hint points. -/
def place? (order : Array Key) (hint : Nat) (key : Key) : Option Nat :=
  if order[hint]? = some key then some hint else order.findIdx? (· = key)

/-- The first place from `position` on whose key has a value. -/
def seek (t : Table) (order : Array Key) (position : Nat) : Option (Nat × Key × Value) :=
  if h : position < order.size then
    match t.get? order[position] with
    | some v => some (position, order[position], v)
    | none => seek t order (position + 1)
  else none
termination_by order.size - position

/-- The place at which a walk in an order goes on after a value, if the walk knows that value. -/
def resume? (t : Table) (order : Array Key) (v : Value) : Option Nat :=
  if v.isNil then some 0
  else (Key.ofValue? v).bind fun key => (place? order t.hint key).map (· + 1)

/-- The entry after a value in the order of the walk, none at its end.  The table
remembers the order, and the place of the entry. -/
def next (t : Table) (a : Arrangement) (v : Value) :
    Except Error (Option (Key × Value)) × Table :=
  let order := t.order a
  let walked := { t with traversal := some order }
  match t.resume? order v with
  | none => (.error .unknownKey, walked)
  | some position =>
      match t.seek order position with
      | some (place, key, value) => (.ok (some (key, value)), { walked with hint := place })
      | none => (.ok none, walked)

end Table

end LuaRuntime

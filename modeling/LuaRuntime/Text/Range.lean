import LuaRuntime.Text.Cursor

/-!
# Ranges of a text

Positions in a text count characters from 1.  A negative position counts from the end.
`Text.range?` brings two positions into the text, and says if anything is left between
them.
-/

namespace LuaRuntime

namespace Text

/-- A position counted from the start, given one that may count from the end. -/
def resolve (position : Int) (length : Nat) : Int :=
  if position < 0 then length + position + 1 else position

/-- The first and the last position of a range that lie in the text, none if the range is
empty. -/
def range? (first last : Int) (length : Nat) : Option (Nat × Nat) :=
  let first := max (resolve first length) 1
  let last := min (resolve last length) length
  if first ≤ last then some (first.toNat, last.toNat) else none

/-- The text between two positions, both included. -/
def slice (text : String) (first last : Int) : String :=
  match range? first last text.length with
  | some (first, last) =>
      let start := Cursor.atPosition text (first - 1)
      start.textTo text (start.forward text (last - first + 1))
  | none => ""

end Text

end LuaRuntime

/-!
# Places in a string

A cursor is a place between two characters of a string.  It counts the characters before the
place and the bytes of their UTF-8 encoding.  Positions are told in characters.  The count of
bytes leads to the place at once, so that a search need not read the string from its start.
-/

namespace LuaRuntime

/-- A place in a string. -/
structure Cursor where
  /-- The number of characters before the place. -/
  position : Nat
  /-- The number of bytes before the place. -/
  offset : String.Pos.Raw
deriving DecidableEq

namespace Cursor

/-- The start of every string. -/
def start : Cursor := ⟨0, 0⟩

/-- Whether the string ends here. -/
def isEnd (s : String) (c : Cursor) : Bool := c.offset.atEnd s

/-- The next character, of a cursor that is not at the end. -/
def get (s : String) (c : Cursor) : Char := c.offset.get s

/-- The place after the next character. -/
def next (s : String) (c : Cursor) : Cursor := ⟨c.position + 1, c.offset.next s⟩

/-- The place before the last character passed. -/
def previous (s : String) (c : Cursor) : Cursor := ⟨c.position - 1, c.offset.prev s⟩

/-- The offset a number of characters further on. -/
def offsetAfter (s : String) : (count : Nat) → String.Pos.Raw → String.Pos.Raw
  | 0, offset => offset
  | count + 1, offset => offsetAfter s count (offset.next s)

/-- The place a number of characters further on. -/
def forward (s : String) (count : Nat) (c : Cursor) : Cursor :=
  ⟨c.position + count, offsetAfter s count c.offset⟩

/-- The place with a number of characters before it. -/
def atPosition (s : String) (position : Nat) : Cursor := start.forward s position

/-- The first place, from one on, that has a number of bytes or more before it, if it is not
more than `count` characters away. -/
def seekOffset (s : String) (bytes : Nat) : (count : Nat) → Cursor → Option Cursor
  | count, c =>
      if bytes ≤ c.offset.byteIdx then some c
      else
        match count with
        | 0 => none
        | count + 1 => seekOffset s bytes count (c.next s)

/-- The first place that has a number of bytes or more before it, none past the end. -/
def fromOffset? (s : String) (bytes : Nat) : Option Cursor := seekOffset s bytes s.length start

/-- The character before a place, NUL at the start. -/
def charBefore (s : String) (c : Cursor) : Char :=
  if c.position = 0 then '\x00' else (c.previous s).get s

/-- The character after a place, NUL at the end. -/
def charAfter (s : String) (c : Cursor) : Char := if c.isEnd s then '\x00' else c.get s

/-- The text from one place to another. -/
def textTo (s : String) (c d : Cursor) : String := c.offset.extract s d.offset

end Cursor

end LuaRuntime

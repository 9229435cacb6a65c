import LuaRuntime.Text.Cursor

/-!
# Regular expressions

Regular expressions come from a library of its own, the engine.  The engine builds an expression
from its text, or refuses the text with a message.  An expression is asked for its first match in a
text from a place on, and answers with the places between which it and each of its groups match.

Nothing is said here about which texts are expressions and which match is the first.  What patterns
use of the engine is written down in `LuaRuntime.Regex.Syntax`, and `LuaRuntime.Regex.Engine` has an
engine for that much.
-/

namespace LuaRuntime

namespace Regex

/-- The places between which something matches. -/
structure Span where
  /-- The place before its first character. -/
  start : Cursor
  /-- The place after its last character. -/
  stop : Cursor
deriving DecidableEq

/-- What a match tells: the span of the whole expression, and the spans of its groups in the order
of their opening parentheses.  A group that takes no part in the match has none. -/
structure Captures where
  /-- The spans. -/
  spans : List (Option Span)
deriving DecidableEq

/-- The span with a number.  The one of the whole expression has the number 0. -/
def Captures.get? (captures : Captures) (i : Nat) : Option Span := (captures.spans[i]?).join

end Regex

/-- A regular expression, ready to be searched for. -/
structure Regex where
  /-- The first match in a text from a place on. -/
  capturesAt : String → Cursor → Option Regex.Captures

namespace Regex

/-- A way to build expressions from their texts. -/
abbrev Engine := String → Except String Regex

/-- The first match in a text. -/
def captures (r : Regex) (s : String) : Option Captures := r.capturesAt s .start

end Regex

end LuaRuntime

import LuaRuntime.Pattern.Match
import LuaRuntime.Regex.Basic
import LuaRuntime.Regex.Syntax

/-!
# An engine for regular expressions

`Regex.backtracking` is an engine for the part of the syntax that `Regex.parse?` reads.  It searches
an expression as a pattern without positions and frontiers, so that each of its captures is a group.

Like the engine whose place it takes it refuses an expression that needs too much memory.  What it
counts is what the characters need that are written as they are, a state of the automaton for each
byte of their encoding.  Anything else counts as one state, though it may need more.
-/

namespace LuaRuntime

namespace Regex

/-! ## Search -/

/-- The span of a capture of text. -/
def spanOf? : Capture → Option Span
  | .text start stop => some ⟨start, stop⟩
  | .position _ => none

/-- What a match tells. -/
def capturesOfMatch (m : Match) : Captures := ⟨some ⟨m.start, m.stop⟩ :: m.captures.map spanOf?⟩

/-- An expression, ready to be searched for.  If it is tied to the start of the text, it matches
nowhere else. -/
def ofExpression (e : Expression) : Regex where
  capturesAt s start :=
    if e.anchored && start.position != 0 then none else (e.find s start).map capturesOfMatch

/-! ## Size -/

/-- The bytes of memory that one state of an automaton takes. -/
def stateSize : Nat := 32

/-- The most bytes of memory that an expression may take. -/
def sizeLimit : Nat := 10485760

/-- The bytes of memory that an item takes, as far as they are counted. -/
def itemSize : Item → Nat
  | .one (.char c) => c.utf8Size * stateSize
  | _ => stateSize

/-- The bytes of memory that an expression takes, as far as they are counted. -/
def size (e : Expression) : Nat := e.items.foldr (fun item total => itemSize item + total) 0

/-! ## Building -/

/-- The message of an expression that is too large. -/
def tooLarge : String :=
  "Compiled regex exceeds size limit of " ++ toString sizeLimit ++ " bytes."

/-- The engine that searches by backtracking. -/
def backtracking : Engine := fun source =>
  match parse? source.toList with
  | some e => if sizeLimit < size e then .error tooLarge else .ok (ofExpression e)
  | none => .error "regex parse error"

end Regex

end LuaRuntime

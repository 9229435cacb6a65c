import LuaRuntime.Pattern.Match
import LuaRuntime.Pattern.Parse
import LuaRuntime.Pattern.Translate
import LuaRuntime.Regex.Basic

/-!
# Compiled patterns

A pattern is compiled by an engine for regular expressions, which may refuse it though it can be
read.  A match of the expression is taken apart into the captures of the pattern by what its groups
stand for, and it counts only if all frontiers hold where they are asked for.  If one does not, the
search starts again, one character after the place where that match starts.

An anchored pattern is searched for in the rest of the text alone, and only once.
-/

namespace LuaRuntime

/-! ## Places -/

/-- A place of a text that starts at another place of a longer text, as a place of the longer
one. -/
def Cursor.plus (base c : Cursor) : Cursor :=
  ⟨base.position + c.position, ⟨base.offset.byteIdx + c.offset.byteIdx⟩⟩

/-- The text from a place on, none if the place lies past the end. -/
def Cursor.rest? (s : String) (c : Cursor) : Option String :=
  if c.offset ≤ s.rawEndPos then some (c.textTo s ⟨s.length, s.rawEndPos⟩) else none

/-- A span of a text that starts at a place of a longer one. -/
def Regex.Span.plus (base : Cursor) (span : Regex.Span) : Regex.Span :=
  ⟨base.plus span.start, base.plus span.stop⟩

/-! ## Compiling -/

/-- A pattern translated to a regular expression. -/
structure CompiledPattern where
  /-- The expression. -/
  regex : Regex
  /-- Whether it matches only where the search starts. -/
  anchored : Bool
  /-- What its groups stand for. -/
  roles : List GroupRole

namespace CompiledPattern

/-- Reads a pattern, and has an engine build its translation. -/
def new (engine : Regex.Engine) (source : String) : Except PatternFault CompiledPattern :=
  match Pattern.parse source with
  | .error fault => .error fault
  | .ok p =>
      match engine p.regexText with
      | .ok regex => .ok ⟨regex, p.anchored, p.roles⟩
      | .error message => .error (.refused message)

/-! ## Searching -/

/-- The captures that groups stand for, none if a frontier does not hold.  The groups are numbered
from `i` on, and `span` is where each of them matches. -/
def capturesOfGroups (s : String) (span : Nat → Regex.Span) :
    (i : Nat) → List GroupRole → Option (List Capture)
  | _, [] => some []
  | i, .text :: roles =>
      (capturesOfGroups s span (i + 1) roles).map (.text (span i).start (span i).stop :: ·)
  | i, .position :: roles =>
      (capturesOfGroups s span (i + 1) roles).map (.position ((span i).start.position + 1) :: ·)
  | i, .frontier members :: roles =>
      if members.bounds s (span i).start then capturesOfGroups s span (i + 1) roles else none

/-- The match that a match of the expression stands for, in a text of which the part from `base` on
was searched.  There is none if a frontier does not hold.  A group that took no part counts as empty
at the start of the match. -/
def accept (c : CompiledPattern) (s : String) (base : Cursor) (found : Regex.Captures) :
    Option Match := do
  let whole := (← found.get? 0).plus base
  let span (i : Nat) := (found.get? i).elim ⟨whole.start, whole.start⟩ (·.plus base)
  return ⟨whole.start, whole.stop, ← capturesOfGroups s span 1 c.roles⟩

/-- The first match in a text from a place on, after at most `further` matches of the expression
that a frontier refuses. -/
def search (c : CompiledPattern) (s : String) : (further : Nat) → Cursor → Option Match
  | further, start => do
      let found ← c.regex.capturesAt s start
      match c.accept s .start found with
      | some m => some m
      | none =>
          let place := (← found.get? 0).start
          match further with
          | 0 => none
          | further + 1 => if place.isEnd s then none else search c s further (place.next s)

/-- The first match in a text from a place on.  An anchored pattern matches only there. -/
def findAt (c : CompiledPattern) (s : String) (start : Cursor) : Option Match :=
  if c.anchored then do
    let rest ← start.rest? s
    c.accept s start (← c.regex.captures rest)
  else c.search s (s.length - start.position) start

end CompiledPattern

end LuaRuntime

import LuaRuntime.Pattern.Compile

/-!
# All matches of a pattern

The matches of a pattern in a text are taken from left to right, each search starting
where the match before ended.  An empty match at that very place does not count again, so
at most one match more than there are characters is found.  An anchored pattern has one
match at most.

A walk holds what is needed for the next match, so that matches can be taken one by one or
all together.
-/

namespace LuaRuntime

/-- A walk through the matches of a pattern in a text. -/
structure MatchWalk where
  /-- The text. -/
  text : String
  /-- The pattern. -/
  pattern : CompiledPattern
  /-- Where the next search starts, none if there is no further match. -/
  place : Option Cursor := some .start
  /-- The position at which the last match ended. -/
  last : Option Nat := none

namespace MatchWalk

/-- The first match from a place on that does not end where the last one did, after at most
`further` empty ones that do. -/
def matchFrom (w : MatchWalk) : (further : Nat) → Cursor → Option Match
  | further, start =>
      match w.pattern.findAt w.text start with
      | none => none
      | some m =>
          if some m.stop.position ≠ w.last then some m
          else if w.pattern.anchored || m.start.isEnd w.text then none
          else
            match further with
            | 0 => none
            | further + 1 => matchFrom w further (m.start.next w.text)

/-- The next match. -/
def next? (w : MatchWalk) : Option Match :=
  w.place.bind fun start => w.matchFrom (w.text.length - start.position) start

/-- The walk after a match. -/
def after (w : MatchWalk) (m : Match) : MatchWalk :=
  { w with
    place := if w.pattern.anchored then none else some m.stop
    last := some m.stop.position }

/-- The walk after its last match. -/
def ended (w : MatchWalk) : MatchWalk := { w with place := none }

/-- The next matches, at most `count` of them. -/
def take : (count : Nat) → MatchWalk → List Match
  | 0, _ => []
  | count + 1, w =>
      match w.next? with
      | some m => m :: take count (w.after m)
      | none => []

end MatchWalk

/-- The matches of a pattern in a text, at most as many as a cap allows. -/
def CompiledPattern.allMatches (p : CompiledPattern) (text : String) (cap : Option Int) :
    List Match :=
  let most := text.length + 1
  MatchWalk.take (cap.elim most fun n => min most n.toNat) { text, pattern := p }

end LuaRuntime

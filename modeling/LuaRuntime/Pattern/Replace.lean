import LuaRuntime.Pattern.Match
import LuaRuntime.Error

/-!
# Replacing matches

`replaceMatches` puts a text in the place of each match, and `expandTemplate` is the text
that a replacement template stands for.
-/

namespace LuaRuntime

/-- The parts of a text with the matches replaced, from a place on. -/
def replacedParts (s : String) (place : Cursor) : List (Match × String) → List String
  | [] => [place.textTo s ⟨s.length, s.rawEndPos⟩]
  | (m, replacement) :: more =>
      place.textTo s m.start :: replacement :: replacedParts s m.stop more

/-- A text with the matches replaced. -/
def replaceMatches (s : String) (replacements : List (Match × String)) : String :=
  String.join (replacedParts s .start replacements)

/-- The text of a capture that a template refers to by a digit.  Without captures the
digit 1 stands for the whole match. -/
def templateCapture (s : String) (m : Match) (index : Nat) : Except PatternFault String :=
  if index = 0 ∨ (m.captures.isEmpty ∧ index = 1) then .ok (m.whole s)
  else
    match m.captures[index - 1]? with
    | some (.text start stop) => .ok (start.textTo s stop)
    | some (.position place) => .ok (toString place)
    | none => .error (.captureIndex index)

/-- What `%` before a character stands for: before a digit a capture, and before another `%` a
percent sign. -/
def templateEscape (s : String) (m : Match) (c : Char) : Except PatternFault (List Char) :=
  if c = '%' then .ok ['%']
  else if c.isDigit then (templateCapture s m (c.toNat - '0'.toNat)).map String.toList
  else .error .templatePercent

/-- The text a template stands for at a match. -/
def expandTemplate (s : String) (m : Match) : List Char → Except PatternFault (List Char)
  | [] => .ok []
  | '%' :: c :: rest =>
      match templateEscape s m c with
      | .ok escaped => (expandTemplate s m rest).map (escaped ++ ·)
      | .error e => .error e
  | ['%'] => .error .templatePercent
  | c :: rest => (expandTemplate s m rest).map (c :: ·)

end LuaRuntime

import LuaRuntime.Pattern.Syntax
import LuaRuntime.Regex.Syntax

/-!
# Translating patterns

A pattern is searched for as a regular expression.  Each item has a text of its own, and the texts
of all items one after the other are the expression.

A capture is a group of the expression, and so is a place: the position that an item captures and
the place where a frontier is asked for are empty groups.  What each group stands for is kept beside
the expression (`GroupRole`), in the order in which the groups open.
-/

namespace LuaRuntime

/-! ## Texts -/

/-- A character that stands for itself. -/
def escapedChar (c : Char) : List Char := if Regex.isMeta c then ['\\', c] else [c]

/-- A character of a set.  It is written by its code unless it is a letter or a digit, so that it
has no meaning of its own in brackets. -/
def setChar (c : Char) : List Char :=
  if c.isAlphanum then [c]
  else "\\x\x7b".toList ++ (Nat.toDigits 16 c.toNat).map Char.toUpper ++ ['\x7d']

/-- A class inside brackets. -/
def CharClass.regexBody : CharClass → String
  | .letter => "[:alpha:]"
  | .control => "[:cntrl:]"
  | .digit => "[:digit:]"
  | .graphic => "[:graph:]"
  | .lower => "[:lower:]"
  | .punctuation => "[:punct:]"
  | .space => "[:space:]"
  | .upper => "[:upper:]"
  | .alphanumeric => "[:alnum:]"
  | .hexadecimal => "[:xdigit:]"
  | .zero => "\\x00"

/-- A class or its complement. -/
def CharClass.regexText (named : CharClass) (inverted : Bool) : List Char :=
  (if inverted then "[^".toList else "[".toList) ++ named.regexBody.toList ++ "]".toList

/-- A member of a set.  A range whose first character is the greater has none. -/
def SetItem.regexText : SetItem → List Char
  | .char c => setChar c
  | .range first last => if first ≤ last then setChar first ++ '-' :: setChar last else []
  | .class named false => named.regexBody.toList
  | .class named true => named.regexText true

/-- A set.  Brackets must not be empty: the set without members matches nowhere, and its complement
is any character. -/
def CharSet.regexText (set : CharSet) : List Char :=
  let body := set.items.flatMap SetItem.regexText
  match body.isEmpty, set.negated with
  | true, false => "(?:\\b\\B)".toList
  | true, true => ".".toList
  | false, false => "[".toList ++ body ++ "]".toList
  | false, true => "[^".toList ++ body ++ "]".toList

/-- An item that matches one character. -/
def Single.regexText : Single → List Char
  | .char c => escapedChar c
  | .any => ".".toList
  | .class named inverted => named.regexText inverted
  | .set members => members.regexText

/-- A quantifier. -/
def Repetition.regexText : Repetition → List Char
  | .many => "*".toList
  | .some => "+".toList
  | .optional => "?".toList
  | .fewest => "*?".toList

/-- An item. -/
def Item.regexText : Item → List Char
  | .one single => single.regexText
  | .repeated single repetition => single.regexText ++ repetition.regexText
  | .position => "()".toList
  | .openCapture => "(".toList
  | .closeCapture => ")".toList
  | .endAnchor => "\\z".toList
  | .frontier _ => "()".toList

/-- The regular expression that a pattern is translated to.  A dot matches the end of a line,
too. -/
def Pattern.regexText (p : Pattern) : String :=
  String.ofList ("(?s)".toList ++ (if p.anchored then "\\A".toList else []) ++
    p.items.flatMap Item.regexText)

/-! ## Groups -/

/-- What a group stands for. -/
inductive GroupRole where
  /-- A capture of text. -/
  | text
  /-- A capture of a position. -/
  | position
  /-- A frontier. -/
  | frontier (members : CharSet)
deriving Repr, DecidableEq

/-- What the group stands for that an item opens. -/
def Item.role? : Item → Option GroupRole
  | .position => some .position
  | .openCapture => some .text
  | .frontier members => some (.frontier members)
  | _ => none

/-- What the groups of a pattern stand for, in the order in which they open. -/
def Pattern.roles (p : Pattern) : List GroupRole := p.items.filterMap Item.role?

end LuaRuntime

/-!
# Patterns

A pattern is a list of items, anchored at the start of the search or not.  An item
matches one character, or a run of such characters, or nothing at a place that it
describes.  A repetition holds exactly one single-character item, and there is no choice
between alternatives.

The character classes are those of the first 128 characters: every other character is in
no class, and in every complement of one.
-/

namespace LuaRuntime

/-! ## Character classes -/

/-- The named classes of characters. -/
inductive CharClass where
  | letter
  | control
  | digit
  | graphic
  | lower
  | punctuation
  | space
  | upper
  | alphanumeric
  | hexadecimal
  | zero
deriving Repr, DecidableEq

namespace CharClass

/-- The class a letter of either case names. -/
def ofLetter? (c : Char) : Option CharClass :=
  match c.toLower with
  | 'a' => some .letter
  | 'c' => some .control
  | 'd' => some .digit
  | 'g' => some .graphic
  | 'l' => some .lower
  | 'p' => some .punctuation
  | 's' => some .space
  | 'u' => some .upper
  | 'w' => some .alphanumeric
  | 'x' => some .hexadecimal
  | 'z' => some .zero
  | _ => none

/-- Whether a class holds a character. -/
def contains : CharClass → Char → Bool
  | .letter, c => c.isAlpha
  | .control, c => decide (c.toNat < 0x20) || c.toNat == 0x7f
  | .digit, c => c.isDigit
  | .graphic, c => decide (0x21 ≤ c.toNat) && decide (c.toNat ≤ 0x7e)
  | .lower, c => c.isLower
  | .punctuation, c =>
      decide (0x21 ≤ c.toNat) && decide (c.toNat ≤ 0x7e) && !c.isAlphanum
  | .space, c => c.toNat == 0x20 || (decide (0x9 ≤ c.toNat) && decide (c.toNat ≤ 0xd))
  | .upper, c => c.isUpper
  | .alphanumeric, c => c.isAlphanum
  | .hexadecimal, c => c.isDigit || ('a' ≤ c && c ≤ 'f') || ('A' ≤ c && c ≤ 'F')
  | .zero, c => c.toNat == 0

end CharClass

/-! ## Sets -/

/-- A member of a set. -/
inductive SetItem where
  | char (c : Char)
  /-- All characters from one to another, none if the first is the greater. -/
  | range (first last : Char)
  /-- A class or its complement. -/
  | class (named : CharClass) (inverted : Bool)
deriving Repr, DecidableEq

/-- Whether a member of a set covers a character. -/
def SetItem.contains : SetItem → Char → Bool
  | .char d, c => c == d
  | .range first last, c => first ≤ c && c ≤ last
  | .class named inverted, c => named.contains c != inverted

/-- A set of characters, written out in brackets. -/
structure CharSet where
  /-- The members. -/
  items : List SetItem
  /-- Whether the set is the complement of its members. -/
  negated : Bool
deriving Repr, DecidableEq

/-- Whether a set holds a character. -/
def CharSet.contains (set : CharSet) (c : Char) : Bool :=
  set.items.any (·.contains c) != set.negated

/-! ## Items -/

/-- An item that matches exactly one character. -/
inductive Single where
  | char (c : Char)
  | any
  | class (named : CharClass) (inverted : Bool)
  | set (members : CharSet)
deriving Repr, DecidableEq

/-- Whether a single-character item matches a character. -/
def Single.accepts : Single → Char → Bool
  | .char d, c => c == d
  | .any, _ => true
  | .class named inverted, c => named.contains c != inverted
  | .set members, c => members.contains c

/-- How often a repeated item may match, and which count is tried first. -/
inductive Repetition where
  /-- Any number of times, the most first. -/
  | many
  /-- At least once, the most first. -/
  | some
  /-- Once or not at all, once first. -/
  | optional
  /-- Any number of times, the fewest first. -/
  | fewest
deriving Repr, DecidableEq

/-- An item of a pattern. -/
inductive Item where
  /-- One character. -/
  | one (single : Single)
  /-- A run of characters. -/
  | repeated (single : Single) (repetition : Repetition)
  /-- A capture of the current position. -/
  | position
  /-- The start of a capture of text. -/
  | openCapture
  /-- The end of the capture opened last. -/
  | closeCapture
  /-- The end of the text. -/
  | endAnchor
  /-- A place between a character outside a set and one inside it. -/
  | frontier (members : CharSet)
deriving Repr, DecidableEq

/-- The number of open captures after an item, none if it closes one that is not open. -/
def Item.depthAfter? (depth : Nat) : Item → Option Nat
  | .openCapture => some (depth + 1)
  | .closeCapture => if depth = 0 then none else some (depth - 1)
  | _ => some depth

/-- A pattern. -/
structure Pattern where
  /-- Whether it matches only where the search starts. -/
  anchored : Bool
  /-- The items, in order. -/
  items : List Item
deriving Repr, DecidableEq

end LuaRuntime

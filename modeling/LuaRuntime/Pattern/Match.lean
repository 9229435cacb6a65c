import LuaRuntime.Pattern.Failures
import LuaRuntime.Pattern.Syntax
import LuaRuntime.Text.Cursor
import LuaRuntime.Value

/-!
# Matching patterns

Of the matches that start at a place, the first one in the order of backtracking counts: a
repetition tries the counts it allows in their order, and the first one from which the rest
of the items matches is taken.  `attempt` finds that match, or says that there is none.

An attempt that succeeds has matched all items to the end of the pattern, so the search is
over.  An attempt that fails says nothing but that, whatever led to it.  So a repetition
notes each place at which it and the items after it have failed, and fails at once when it
comes there again.  The work is at most the number of items times the number of characters,
and the search stops at the first match.
-/

namespace LuaRuntime

/-! ## Matches -/

/-- What a capture holds. -/
inductive Capture where
  /-- The text between two places. -/
  | text (start stop : Cursor)
  /-- A position, counted from 1. -/
  | position (place : Nat)
deriving DecidableEq

/-- A match: the places it lies between, and its captures in the order in which they were
opened. -/
structure Match where
  /-- The place before its first character. -/
  start : Cursor
  /-- The place after its last character. -/
  stop : Cursor
  /-- The captures. -/
  captures : List Capture
deriving DecidableEq

/-! ## Marks of captures -/

/-- A mark that an item of a capture leaves at its place. -/
inductive Mark where
  /-- A capture opens. -/
  | opened (place : Cursor)
  /-- The capture opened last closes. -/
  | closed (place : Cursor)
  /-- The position is captured. -/
  | captured (place : Cursor)
deriving DecidableEq

/-- A capture during a match. -/
inductive Slot where
  /-- Opened at a place, and not closed yet. -/
  | opened (start : Cursor)
  /-- Complete. -/
  | done (capture : Capture)
deriving DecidableEq

/-- Closes the capture opened last.  The captures stand with the latest first. -/
def Slot.close (stop : Cursor) : List Slot → List Slot
  | [] => []
  | .opened start :: rest => .done (.text start stop) :: rest
  | slot :: rest => slot :: Slot.close stop rest

/-- The captures after one more mark, the latest first. -/
def Slot.add (slots : List Slot) : Mark → List Slot
  | .opened place => .opened place :: slots
  | .closed place => Slot.close place slots
  | .captured place => .done (.position (place.position + 1)) :: slots

/-- The capture of a slot.  One that was never closed is empty. -/
def Slot.toCapture : Slot → Capture
  | .opened start => .text start start
  | .done capture => capture

/-- The captures that marks stand for, in the order in which they were opened. -/
def capturesOf (marks : List Mark) : List Capture :=
  ((marks.foldl Slot.add []).map Slot.toCapture).reverse

/-! ## Endings -/

/-- The rest of a match: where it ends, and the marks on the way there. -/
structure Ending where
  /-- The place after the last character. -/
  stop : Cursor
  /-- The marks, in their order. -/
  marks : List Mark
deriving DecidableEq

/-- The ending with a mark in front. -/
def Ending.mark (m : Mark) (ending : Ending) : Ending := { ending with marks := m :: ending.marks }

/-- The match that starts at a place and ends so. -/
def Ending.toMatch (start : Cursor) (ending : Ending) : Match :=
  ⟨start, ending.stop, capturesOf ending.marks⟩

/-- What comes of an attempt to match items at a place. -/
inductive Trial where
  /-- They match, with this ending. -/
  | success (ending : Ending)
  /-- They do not match.  These failures are known now. -/
  | failure (known : Failures)

/-- The trial with a mark in front of the ending. -/
def Trial.mark (m : Mark) : Trial → Trial
  | .success ending => .success (ending.mark m)
  | .failure known => .failure known

/-- An attempt to match items at a place, given the failures known before. -/
abbrev Attempt := Cursor → Failures → Trial

/-! ## Items -/

/-- Whether the next character is one that an item matches. -/
def Single.fits (single : Single) (s : String) (c : Cursor) : Bool :=
  !c.isEnd s && single.accepts (c.get s)

/-- The place after the longest run of characters of an item, at most `count` of them.  The
run stops before a place at which the repetition is known to fail. -/
def runEnd (s : String) (single : Single) (repetition : Nat) (known : Failures) :
    (count : Nat) → Cursor → Cursor
  | 0, c => c
  | count + 1, c =>
      if single.fits s c && !known.has repetition (c.position + 1) then
        runEnd s single repetition known count (c.next s)
      else c

/-- Tries the rest of the items at a place, and then at the places before, `count` of
them. -/
def retreat (s : String) (repetition : Nat) (rest : Attempt) :
    (count : Nat) → Attempt
  | count, c, known =>
      match rest c known with
      | .success ending => .success ending
      | .failure known =>
          let known := known.add repetition c.position
          match count with
          | 0 => .failure known
          | count + 1 => retreat s repetition rest count (c.previous s) known

/-- Tries the rest of the items after the longest run of characters of an item, and then
after shorter ones. -/
def tryLongest (s : String) (single : Single) (repetition : Nat) (rest : Attempt) : Attempt :=
  fun c known =>
    if known.has repetition c.position then .failure known
    else
      let last := runEnd s single repetition known (s.length - c.position) c
      retreat s repetition rest (last.position - c.position) last known

/-- Tries the rest of the items at a place, and then after each character of an item, at most
`count` of them. -/
def tryShortest (s : String) (single : Single) (repetition : Nat) (rest : Attempt) :
    (count : Nat) → Attempt
  | count, c, known =>
      if known.has repetition c.position then .failure known
      else
        match rest c known with
        | .success ending => .success ending
        | .failure known =>
            let known := known.add repetition c.position
            match count with
            | 0 => .failure known
            | count + 1 =>
                if single.fits s c then
                  tryShortest s single repetition rest count (c.next s) known
                else .failure known

/-- Tries the rest of the items after a character of an item, and then without it. -/
def tryOptional (s : String) (single : Single) (repetition : Nat) (rest : Attempt) : Attempt :=
  fun c known =>
    if known.has repetition c.position then .failure known
    else
      match if single.fits s c then rest (c.next s) known else .failure known with
      | .success ending => .success ending
      | .failure known =>
          match rest c known with
          | .success ending => .success ending
          | .failure known => .failure (known.add repetition c.position)

/-- Whether a place lies between a character outside a set and one inside it. -/
def CharSet.bounds (members : CharSet) (s : String) (c : Cursor) : Bool :=
  !members.contains (c.charBefore s) && members.contains (c.charAfter s)

/-- Tries items at a place.  The repetitions among them are numbered from `repetition`
on. -/
def attempt (s : String) : (repetition : Nat) → List Item → Attempt
  | _, [], c, _ => .success ⟨c, []⟩
  | i, .one single :: rest, c, known =>
      if single.fits s c then attempt s i rest (c.next s) known else .failure known
  | i, .repeated single .many :: rest, c, known =>
      tryLongest s single i (attempt s (i + 1) rest) c known
  | i, .repeated single .some :: rest, c, known =>
      if single.fits s c then tryLongest s single i (attempt s (i + 1) rest) (c.next s) known
      else .failure known
  | i, .repeated single .optional :: rest, c, known =>
      tryOptional s single i (attempt s (i + 1) rest) c known
  | i, .repeated single .fewest :: rest, c, known =>
      tryShortest s single i (attempt s (i + 1) rest) (s.length - c.position) c known
  | i, .position :: rest, c, known => (attempt s i rest c known).mark (.captured c)
  | i, .openCapture :: rest, c, known => (attempt s i rest c known).mark (.opened c)
  | i, .closeCapture :: rest, c, known => (attempt s i rest c known).mark (.closed c)
  | i, .endAnchor :: rest, c, known =>
      if c.isEnd s then attempt s i rest c known else .failure known
  | i, .frontier members :: rest, c, known =>
      if members.bounds s c then attempt s i rest c known else .failure known

/-! ## Search -/

/-- Whether an item is a repetition. -/
def Item.isRepetition : Item → Bool
  | .repeated _ _ => true
  | _ => false

/-- The fewest characters that an item matches. -/
def Item.leastLength : Item → Nat
  | .one _ => 1
  | .repeated _ .some => 1
  | _ => 0

namespace Pattern

/-- The number of repetitions. -/
def repetitions (p : Pattern) : Nat := p.items.countP Item.isRepetition

/-- The fewest characters that a match has. -/
def leastLength (p : Pattern) : Nat :=
  p.items.foldr (fun item total => item.leastLength + total) 0

/-- The first match that starts at a place or at one of a number of places after it. -/
def firstMatch (s : String) (items : List Item) :
    (further : Nat) → Cursor → Failures → Option Match
  | further, c, known =>
      match attempt s 0 items c known with
      | .success ending => some (ending.toMatch c)
      | .failure known =>
          match further with
          | 0 => none
          | further + 1 => firstMatch s items further (c.next s) known

/-- The first match in a text from a place on.  An anchored pattern matches only there.  No
match starts where fewer characters are left than it must have. -/
def find (p : Pattern) (s : String) (start : Cursor) : Option Match :=
  let left := s.length - start.position
  if left < p.leastLength then none
  else
    firstMatch s p.items (if p.anchored then 0 else left - p.leastLength) start
      (.none start.position p.repetitions)

end Pattern

/-! ## Values of a match -/

/-- The value of a capture. -/
def Capture.value (s : String) : Capture → Value
  | .text start stop => .string (start.textTo s stop)
  | .position place => .ofNat place

namespace Match

/-- The matched text. -/
def whole (m : Match) (s : String) : String := m.start.textTo s m.stop

/-- The values of the captures. -/
def captureValues (m : Match) (s : String) : List Value := m.captures.map (Capture.value s)

/-- The values of the captures, or the matched text if there are none. -/
def values (m : Match) (s : String) : List Value :=
  if m.captures.isEmpty then [.string (m.whole s)] else m.captureValues s

end Match

end LuaRuntime

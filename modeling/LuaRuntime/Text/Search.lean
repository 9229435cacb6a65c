import LuaRuntime.Text.Cursor

/-!
# Finding a text in another

`Text.find?` is the first place at which a text stands in another one.

The places are tried from left to right.  Comparing the whole text at every place would
take too long where the two texts are long and alike, so each place has a fingerprint: the
characters from there on as digits of a number in an odd base, modulo `2 ^ 64`.  The
fingerprint of the next place follows from the one before by one character that leaves and
one that enters.  Only where the fingerprints agree are the texts compared, and equal texts
have equal fingerprints, so no place is missed.
-/

namespace LuaRuntime

namespace Text

/-! ## Fingerprints -/

/-- The base of fingerprints. -/
def fingerprintBase : UInt64 := 0x5851f42d4c957f2d

/-- The weight of a character in a fingerprint. -/
def charWeight (c : Char) : UInt64 := c.val.toUInt64

/-- A fingerprint continued by a number of characters of a text. -/
def fingerprintFrom (s : String) : (count : Nat) → (offset : String.Pos.Raw) → UInt64 → UInt64
  | 0, _, sum => sum
  | count + 1, offset, sum =>
      fingerprintFrom s count (offset.next s) (sum * fingerprintBase + charWeight (offset.get s))

/-- The weight of the first of a number of characters in their fingerprint. -/
def leadingWeight : (length : Nat) → UInt64
  | 0 => 1
  | 1 => 1
  | length + 2 => leadingWeight (length + 1) * fingerprintBase

/-! ## Search -/

/-- The first place at which a text with the fingerprint `mark` stands, among the place
`here` and a number of further ones.  The place `ahead` is as many characters further on as
the wanted text has, and `window` is the fingerprint of what lies between. -/
def findFrom (s wanted : String) (mark lead : UInt64) :
    (further : Nat) → (window : UInt64) → (here ahead : Cursor) → Option Cursor
  | further, window, here, ahead =>
      if window == mark && here.textTo s ahead == wanted then some here
      else
        match further with
        | 0 => none
        | further + 1 =>
            let kept := (window - charWeight (here.get s) * lead) * fingerprintBase
            findFrom s wanted mark lead further (kept + charWeight (ahead.get s)) (here.next s)
              (ahead.next s)

/-- The first place from `start` on at which a text stands in another. -/
def find? (s wanted : String) (start : Cursor) : Option Cursor :=
  let length := wanted.length
  let left := s.length - start.position
  if left < length then none
  else
    findFrom s wanted (fingerprintFrom wanted length 0 0) (leadingWeight length) (left - length)
      (fingerprintFrom s length start.offset 0) start (start.forward s length)

end Text

end LuaRuntime

import LuaRuntime.Number.Exact

/-!
# Numbers as 32-bit words

A number stands for the word that its integer part is congruent to modulo `2 ^ 32`, and
zero if it is not finite.  A word is given back as the signed integer it encodes.
-/

namespace LuaRuntime

/-- A word of 32 bits. -/
abbrev Word := BitVec 32

namespace Word

/-- The word of a number. -/
def ofNumber (x : Double) : Word := BitVec.ofInt 32 ((Double.toInt? x).getD 0)

/-- The number of a word, as a signed integer. -/
def toNumber (w : Word) : Double := Double.ofInt w.toInt

/-- The word with its four bytes in the opposite order. -/
def swapBytes (w : Word) : Word :=
  ((w &&& 0xff#32) <<< 24) ||| ((w &&& 0xff00#32) <<< 8) ||| ((w >>> 8) &&& 0xff00#32)
    ||| (w >>> 24)

/-- The last hexadecimal digits of a word, from one to eight of them, in upper case if the
count is negative. -/
def hexText (w : Word) (count : Int) : String :=
  let digits := (Nat.toDigits 16 w.toNat).leftpad 8 '0'
  let shown := digits.drop (8 - min 8 (max 1 count.natAbs))
  String.ofList (if count < 0 then shown.map Char.toUpper else shown)

end Word

end LuaRuntime

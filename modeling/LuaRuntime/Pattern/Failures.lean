/-!
# Known failures

A search remembers where it failed.  Each repetition of a pattern has a number, and for each
of them it is known at which positions the items from there on do not match.  Without this a
search could try the same items at the same place over and over.

Positions count from `base`, where the search starts.
-/

namespace LuaRuntime

/-- The positions at which the items of a pattern are known not to match from a repetition
on. -/
structure Failures where
  /-- The first position. -/
  base : Nat
  /-- A list of flags for each repetition, one for each position.  Missing flags are not
  set. -/
  flags : Array ByteArray

namespace Failures

/-- Nothing is known. -/
def none (base repetitions : Nat) : Failures := ⟨base, Array.replicate repetitions .empty⟩

/-- Whether a flag is set. -/
def isSet (flags : ByteArray) (index : Nat) : Bool :=
  if h : index < flags.size then flags.get index h != 0 else false

/-- The flags and a number of further ones that are not set. -/
def extend : (count : Nat) → ByteArray → ByteArray
  | 0, flags => flags
  | count + 1, flags => extend count (flags.push 0)

/-- The flags with one of them set. -/
def setFlag (index : Nat) (flags : ByteArray) : ByteArray :=
  if h : index < flags.size then flags.set index 1 h
  else (extend (index - flags.size) flags).push 1

/-- Whether a failure is known. -/
def has (f : Failures) (repetition position : Nat) : Bool :=
  isSet (f.flags.getD repetition .empty) (position - f.base)

/-- The failures and one more. -/
def add (f : Failures) (repetition position : Nat) : Failures :=
  { f with flags := f.flags.modify repetition (setFlag (position - f.base)) }

end Failures

end LuaRuntime

import LuaRuntime.Text.Split

/-!
# Dotted paths

A dotted path names a place in nested tables: `a.b.c` is the field `c` of the field `b`
of `a`.  A path always has at least one part, and a part may be empty.
-/

namespace LuaRuntime

namespace Path

/-- The parts of a path. -/
def parts (path : String) : List String := (splitAtChar '.' path.toList).map String.ofList

/-- The path up to its last dot, with the dot.  It is empty if the path has no dot. -/
def parent (path : String) : String :=
  String.ofList (path.toList.reverse.dropWhile (· != '.')).reverse

/-- The path split at its first dot, if it has one. -/
def split? (path : String) : Option (String × String) :=
  match path.toList.dropWhile (· != '.') with
  | [] => none
  | _ :: rest =>
      some (String.ofList (path.toList.takeWhile (· != '.')), String.ofList rest)

end Path

end LuaRuntime
